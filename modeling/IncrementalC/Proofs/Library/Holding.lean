import Mathlib.Data.List.Nodup
import IncrementalC.Proofs.Library.History
import IncrementalC.Proofs.Library.Resolver

/-!
Contract: the tables and handles of a resolver hold what the history of its requests says.

Owns: finding an open library by its handle; the open libraries with their handles, as
they are opened and closed; and that each request keeps the tables in step with the
history.

Does not own: which function a history gives to a name, or what is due when a library is
closed.
-/

namespace IncrementalC

open NativeHistory

/-! ## Handles -/

theorem Loader.loaded?_of_mem {loader : Loader} {entry : LoadedLibrary}
    (apart : (loader.loaded.map LoadedLibrary.handle).Nodup) (member : entry ∈ loader.loaded) :
    loader.loaded? entry.handle = some entry := by
  unfold Loader.loaded?
  generalize loader.loaded = loaded at apart member
  induction loaded with
  | nil => cases member
  | cons first rest inductionHypothesis =>
    obtain ⟨differs, apartRest⟩ := List.nodup_cons.mp apart
    rcases List.mem_cons.mp member with rfl | member
    · exact List.find?_cons_of_pos (decide_eq_true rfl)
    · have other : first.handle ≠ entry.handle := fun same =>
        differs (same ▸ List.mem_map_of_mem member)
      rw [List.find?_cons_of_neg (by simpa using other)]
      exact inductionHypothesis apartRest member

namespace Resolver

/-- A library that is open under a handle, as the resolver lists it. -/
def listed (entry : LibraryHandle × OpenedLibrary) : String × OpenLibrary :=
  (entry.2.name, ⟨entry.2.name, entry.1, entry.2.permanent⟩)

/-- A library that is open under a handle, as the loader lists it. -/
def loadedAs (entry : LibraryHandle × OpenedLibrary) : LoadedLibrary :=
  ⟨entry.1, entry.2.name, entry.2.library⟩

/-- A resolver that has these libraries open under these handles, earliest opened first. -/
structure Holds (resolver : Resolver) (held : List (LibraryHandle × OpenedLibrary)) : Prop where
  libraries : resolver.libraries = held.map listed
  loaded : resolver.loader.loaded = held.map loadedAs
  /-- Handles that are still to come are new. -/
  fresh : ∀ entry ∈ held, entry.1.number < resolver.loader.nextHandle
  apart : (held.map Prod.fst).Nodup
  /-- No library is open twice. -/
  named : (held.map fun entry => entry.2.name).Nodup

/-- The resolvers differ in the libraries that are open only. -/
structure AlikeButOpen (before after : Resolver) : Prop where
  source : after.loader.source = before.loader.source
  added : after.added = before.added
  created : after.created = before.created
  creator : after.creator = before.creator

section

variable {resolver : Resolver} {held : List (LibraryHandle × OpenedLibrary)}

theorem Holds.handles (holds : resolver.Holds held) :
    resolver.loader.loaded.map LoadedLibrary.handle = held.map Prod.fst := by
  rw [holds.loaded, List.map_map]
  rfl

theorem Holds.function? (holds : resolver.Holds held) {entry : LibraryHandle × OpenedLibrary}
    (member : entry ∈ held) (name : String) :
    resolver.loader.function? entry.1 name = entry.2.library.functions.get? name := by
  have apart : (resolver.loader.loaded.map LoadedLibrary.handle).Nodup := by
    rw [holds.handles]
    exact holds.apart
  have loaded : loadedAs entry ∈ resolver.loader.loaded := by
    rw [holds.loaded]
    exact List.mem_map_of_mem member
  unfold Loader.function?
  rw [show entry.1 = (loadedAs entry).handle from rfl, Loader.loaded?_of_mem apart loaded]
  rfl

/-- An open library is told by its name. -/
theorem Holds.unique (holds : resolver.Holds held) {left right : LibraryHandle × OpenedLibrary}
    (leftHeld : left ∈ held) (rightHeld : right ∈ held) (same : left.2.name = right.2.name) :
    left = right :=
  List.inj_on_of_nodup_map holds.named leftHeld rightHeld same

theorem Holds.find (holds : resolver.Holds held) {entry : LibraryHandle × OpenedLibrary}
    (member : entry ∈ held) :
    held.find? (fun other => other.2.name = entry.2.name) = some entry := by
  cases first : held.find? _ with
  | none => exact absurd (decide_eq_true rfl) (List.find?_eq_none.mp first entry member)
  | some other =>
    have same : other.2.name = entry.2.name := of_decide_eq_true (List.find?_some first :)
    exact congrArg some (holds.unique (List.mem_of_find?_eq_some first) member same)

theorem Holds.transfer (holds : resolver.Holds held) {other : Resolver}
    (libraries : other.libraries = resolver.libraries) (loader : other.loader = resolver.loader) :
    other.Holds held where
  libraries := libraries.trans holds.libraries
  loaded := by
    rw [loader]
    exact holds.loaded
  fresh := by
    rw [loader]
    exact holds.fresh
  apart := holds.apart
  named := holds.named

/-- Libraries are searched in the order of opening. -/
theorem Holds.exported? (holds : resolver.Holds held) (name : String) :
    resolver.exported? name =
      (held.map Prod.snd).findSome? fun entry => entry.library.functions.get? name := by
  have exports : ∀ part : List (LibraryHandle × OpenedLibrary), (∀ entry ∈ part, entry ∈ held) →
      (part.map listed).findSome? (fun entry => resolver.loader.function? entry.2.handle name) =
        (part.map Prod.snd).findSome? fun entry => entry.library.functions.get? name := by
    intro part within
    induction part with
    | nil => rfl
    | cons entry rest inductionHypothesis =>
      obtain ⟨isHeld, restHeld⟩ := List.forall_mem_cons.mp within
      have exported : resolver.loader.function? (listed entry).2.handle name =
          entry.2.library.functions.get? name := holds.function? isHeld name
      rw [List.map_cons, List.map_cons, List.findSome?_cons, List.findSome?_cons, exported,
        inductionHypothesis restHeld]
  unfold Resolver.exported?
  rw [holds.libraries]
  exact exports held fun _ member => member

/-- An open library is found under its name. -/
theorem Holds.findLibrary? (holds : resolver.Holds held) (name : String) :
    resolver.findLibrary? name = (held.find? fun entry => entry.2.name = name).map listed := by
  unfold Resolver.findLibrary?
  rw [holds.libraries, List.find?_map]
  simp only [Function.comp_def, listed, or_self]

/-- A library that is opened stands last, under a handle of its own. -/
theorem Holds.opened (holds : resolver.Holds held) {catalog : Keyed Library} {name : String}
    {library : Library} (source : resolver.loader.source = .catalog catalog)
    (offered : catalog.get? name = some library)
    (unopened : name ∉ held.map fun entry => entry.2.name) (permanent : Bool) :
    ∃ opened, resolver.openLibrary name name permanent =
        .ok (⟨resolver.loader.nextHandle⟩, opened) ∧
      opened.Holds (held ++ [(⟨resolver.loader.nextHandle⟩, ⟨name, library, permanent⟩)]) ∧
      resolver.AlikeButOpen opened := by
  have supplied : resolver.loader.source.library name = .ok library := by
    unfold LibrarySource.library
    rw [source]
    dsimp only
    rw [offered]
  unfold openLibrary Loader.openLibrary
  rw [supplied]
  refine ⟨_, rfl, ⟨?_, ?_, ?_, ?_, ?_⟩, ⟨rfl, rfl, rfl, rfl⟩⟩
  · have absent : name ∉ resolver.libraries.map Prod.fst := by
      rw [holds.libraries, List.map_map]
      exact unopened
    dsimp only
    rw [Keyed.set_absent absent, holds.libraries, List.map_append]
    rfl
  · dsimp only
    rw [holds.loaded, List.map_append]
    rfl
  · intro entry member
    rcases List.mem_append.mp member with old | new
    · exact Nat.lt_succ_of_lt (holds.fresh entry old)
    · obtain rfl := List.mem_singleton.mp new
      exact Nat.lt_succ_self _
  · rw [List.map_append, List.nodup_append]
    refine ⟨holds.apart, List.nodup_singleton _, ?_⟩
    intro handle member last isLast same
    obtain ⟨entry, isHeld, rfl⟩ := List.mem_map.mp member
    obtain rfl := List.mem_singleton.mp isLast
    have older := holds.fresh entry isHeld
    rw [same] at older
    exact Nat.lt_irrefl _ older
  · rw [List.map_append, List.nodup_append]
    refine ⟨holds.named, List.nodup_singleton _, ?_⟩
    intro other member last isLast same
    obtain rfl := List.mem_singleton.mp isLast
    exact unopened (same ▸ member)

/-- When a library is closed, its handle goes with its name. -/
theorem Holds.closed (holds : resolver.Holds held) {entry : LibraryHandle × OpenedLibrary}
    (member : entry ∈ held) :
    (resolver.closeLibrary entry.2.name).2.Holds
        (held.filter fun other => other.2.name ≠ entry.2.name) ∧
      resolver.AlikeButOpen (resolver.closeLibrary entry.2.name).2 := by
  have found : resolver.libraries.get? entry.2.name = some (listed entry).2 := by
    unfold Keyed.get?
    rw [holds.libraries, List.find?_map]
    show ((held.find? fun other => other.2.name = entry.2.name).map listed).map Prod.snd = _
    rw [holds.find member]
    rfl
  unfold closeLibrary
  rw [found]
  refine ⟨⟨?_, ?_, ?_, ?_, ?_⟩, ⟨rfl, rfl, rfl, rfl⟩⟩
  · unfold Keyed.erase
    rw [holds.libraries, List.filter_map]
    rfl
  · dsimp only [Loader.close]
    rw [holds.loaded, List.filter_map]
    refine congrArg (List.map loadedAs) (List.filter_congr fun other isHeld => ?_)
    refine decide_eq_decide.mpr (not_congr ⟨fun same => ?_, fun same => ?_⟩)
    · rw [List.inj_on_of_nodup_map holds.apart isHeld member same]
    · rw [holds.unique isHeld member same]
      rfl
  · exact fun other kept => holds.fresh other (List.mem_of_mem_filter kept)
  · exact holds.apart.sublist (List.filter_sublist.map _)
  · exact holds.named.sublist (List.filter_sublist.map _)

end

/-! ## Tables -/

/-- Resolving a name remembers the answer of the creator, if it was asked. -/
theorem resolve_created (resolver : Resolver) (name other : String) (trace : Trace) :
    (resolver.resolve name trace).2.1.created.get? other =
      (resolver.created.get? other).or
        (if name = other ∧ resolver.known? name = none then
          resolver.creator.bind fun create => create name
        else none) := by
  unfold resolve
  cases unknown : resolver.known? name with
  | some function => simp
  | none =>
    cases creator : resolver.creator with
    | none => simp
    | some create =>
      cases answer : create name with
      | none => simp [answer]
      | some function =>
        have unmade := created_of_known?_eq_none unknown
        by_cases same : other = name
        · subst same
          simp [answer, Keyed.get?_set, unmade]
        · simp [answer, Keyed.get?_set, same, Ne.symm same]

/-- The creator is asked, if there is one, for a name under which nothing is known. -/
theorem resolve_asks (resolver : Resolver) (name : String) (trace : Trace) :
    (resolver.resolve name trace).2.2 =
      if resolver.known? name = none ∧ resolver.creator.isSome then
        .functionRequested name :: trace
      else trace := by
  unfold resolve
  cases resolver.known? name with
  | some function => simp
  | none =>
    cases resolver.creator with
    | none => simp
    | some create => cases answer : create name <;> simp [answer]

/-- A resolver whose tables hold what the history says, its open libraries under these
handles. -/
structure Follows (catalog : Keyed Library) (history : NativeHistory)
    (held : List (LibraryHandle × OpenedLibrary)) (resolver : Resolver) : Prop where
  holds : resolver.Holds held
  opened : held.map Prod.snd = opened catalog history
  offered : ∃ libraries, resolver.loader.source = .catalog libraries ∧
    ∀ name, Keyed.get? libraries name = offered? catalog name history
  added : ∀ name, resolver.added.get? name = added? name history
  created : ∀ name, resolver.created.get? name = supplied? catalog name history
  creator : resolver.creator = creator? history

namespace Follows

variable {catalog : Keyed Library} {history : NativeHistory}
  {held : List (LibraryHandle × OpenedLibrary)} {resolver : Resolver}

theorem new (catalog : Keyed Library) : (Resolver.new (.catalog catalog)).Follows catalog [] [] where
  holds := ⟨rfl, rfl, nofun, .nil, .nil⟩
  opened := rfl
  offered := ⟨catalog, rfl, fun _ => rfl⟩
  added _ := rfl
  created _ := rfl
  creator := rfl

theorem names (follows : resolver.Follows catalog history held) :
    (held.map fun entry => entry.2.name) = (history.opened catalog).map OpenedLibrary.name := by
  rw [← follows.opened, List.map_map]
  rfl

theorem exported? (follows : resolver.Follows catalog history held) (name : String) :
    resolver.exported? name = history.exported? catalog name := by
  rw [follows.holds.exported?, follows.opened]
  rfl

/-- What a resolver knows is what is provided or was supplied. -/
theorem known? (follows : resolver.Follows catalog history held) (name : String) :
    resolver.known? name =
      (provided? catalog name history).or (supplied? catalog name history) := by
  unfold Resolver.known? provided?
  rw [follows.added, follows.exported?, follows.created]
  cases added? name history with
  | some function => rfl
  | none => cases history.exported? catalog name <;> rfl

/-- A name denotes what the history says. -/
theorem native? (follows : resolver.Follows catalog history held) (name : String) :
    resolver.native? name = function? catalog name history := by
  unfold Resolver.native? function?
  rw [follows.known?, follows.creator]
  cases provided? catalog name history with
  | some function => rfl
  | none => cases supplied? catalog name history <;> rfl

/-- The lazy creator is asked when the history says so. -/
theorem resolve_asks (follows : resolver.Follows catalog history held) (name : String)
    (trace : Trace) :
    (resolver.resolve name trace).2.2 =
      if Asks catalog name history then .functionRequested name :: trace else trace := by
  rw [Resolver.resolve_asks]
  refine if_congr ?_ rfl rfl
  rw [follows.known?, follows.creator, Option.or_eq_none_iff, and_assoc]
  rfl

/-! ### Requests -/

theorem addFunction (follows : resolver.Follows catalog history held) (name : String)
    (function : NativeFunction) :
    (resolver.addFunction name function).Follows catalog (.addFunction name function :: history)
      held where
  holds := follows.holds.transfer rfl rfl
  opened := follows.opened
  offered := follows.offered
  added other := by
    show (resolver.added.set name function).get? other = _
    rw [Keyed.get?_set, follows.added, added?_addFunction]
  created := follows.created
  creator := follows.creator

theorem provideLibrary (follows : resolver.Follows catalog history held) (name : String)
    (library : Library) :
    ({ resolver with loader := resolver.loader.provide name library } : Resolver).Follows catalog
      (.provideLibrary name library :: history) held := by
  obtain ⟨libraries, source, offered⟩ := follows.offered
  have provided : resolver.loader.provide name library =
      { resolver.loader with source := .catalog (libraries.set name library) } := by
    unfold Loader.provide
    rw [source]
  rw [provided]
  refine ⟨⟨follows.holds.libraries, follows.holds.loaded, follows.holds.fresh,
    follows.holds.apart, follows.holds.named⟩, follows.opened, ⟨_, rfl, fun other => ?_⟩, follows.added,
    follows.created, follows.creator⟩
  rw [Keyed.get?_set, offered, offered?_provideLibrary]

theorem setCreator (follows : resolver.Follows catalog history held) (creator : FunctionCreator) :
    (resolver.setCreator creator).Follows catalog (.setCreator creator :: history) held where
  holds := follows.holds.transfer rfl rfl
  opened := follows.opened
  offered := follows.offered
  added := follows.added
  created := follows.created
  creator := rfl

/-- Resolving a name leaves behind what was supplied. -/
theorem resolve (follows : resolver.Follows catalog history held) (name : String)
    (trace : Trace) :
    (resolver.resolve name trace).2.1.Follows catalog (.resolve name :: history) held := by
  have continues := resolver.resolve_continues name trace
  refine ⟨follows.holds.transfer continues.libraries continues.loader, follows.opened,
    ?_, ?_, ?_, continues.creator.trans follows.creator⟩
  · rw [continues.loader]
    exact follows.offered
  · rw [continues.added]
    exact follows.added
  · intro other
    simp only [resolve_created, supplied?, follows.created, follows.known?, follows.creator,
      Option.or_eq_none_iff]
    by_cases same : name = other
    · subst same
      cases supplied? catalog name history <;> simp
    · simp only [same, false_and, if_false]

/-- A library that the catalog offers is opened, unless it is open. -/
theorem openLibrary (follows : resolver.Follows catalog history held) {name : String}
    {library : Library} (offered : offered? catalog name history = some library)
    (unopened : resolver.findLibrary? name = none) (files : Files.FileTree) (permanent : Bool)
    (searchPaths : List String) :
    ∃ handle opened held', resolver.openLibrary name name permanent = .ok (handle, opened) ∧
      opened.Follows catalog (.loadLibrary files name permanent searchPaths :: history) held' := by
  obtain ⟨libraries, source, same⟩ := follows.offered
  have absent : name ∉ held.map fun entry => entry.2.name := by
    rw [follows.holds.findLibrary?, Option.map_eq_none_iff, List.find?_eq_none] at unopened
    intro member
    obtain ⟨entry, isHeld, named⟩ := List.mem_map.mp member
    exact unopened entry isHeld (decide_eq_true named)
  obtain ⟨opened, opens, holds, alike⟩ :=
    follows.holds.opened source ((same name).trans offered) absent permanent
  refine ⟨_, opened, _, opens, holds, ?_, ?_, ?_, ?_, ?_⟩
  · rw [follows.names] at absent
    simp only [List.map_append, follows.opened, NativeHistory.opened, offered, if_neg absent]
    rfl
  · rw [alike.source]
    exact ⟨libraries, source, same⟩
  · rw [alike.added]
    exact follows.added
  · rw [alike.created]
    exact follows.created
  · exact alike.creator.trans follows.creator

/-- Nothing happens when the library is not offered, or is open. -/
theorem loadLibrary_of_kept (follows : resolver.Follows catalog history held) {name : String}
    (kept : offered? catalog name history = none ∨ (resolver.findLibrary? name).isSome)
    (files : Files.FileTree) (permanent : Bool) (searchPaths : List String) :
    resolver.Follows catalog (.loadLibrary files name permanent searchPaths :: history) held := by
  refine ⟨follows.holds, ?_, follows.offered, follows.added, follows.created, follows.creator⟩
  rw [follows.opened, NativeHistory.opened]
  cases offered : offered? catalog name history with
  | none => rfl
  | some library =>
    have isOpen : name ∈ (NativeHistory.opened catalog history).map OpenedLibrary.name := by
      rw [offered, follows.holds.findLibrary?, Option.isSome_map, List.find?_isSome] at kept
      obtain ⟨entry, isHeld, named⟩ := kept.resolve_left nofun
      rw [← follows.names]
      exact List.mem_map.mpr ⟨entry, isHeld, of_decide_eq_true named⟩
    simp only [if_pos isOpen]

/-- A library that is not permanent is closed. -/
theorem closeLibrary (follows : resolver.Follows catalog history held) {name canonical : String}
    {library : OpenLibrary} (found : resolver.findLibrary? name = some (canonical, library))
    (closable : library.permanent = false) :
    ∃ held', (resolver.closeLibrary canonical).2.Follows catalog (.unloadLibrary name :: history)
      held' := by
  rw [follows.holds.findLibrary?] at found
  obtain ⟨entry, first, listedAs⟩ := Option.map_eq_some_iff.mp found
  have isHeld := List.mem_of_find?_eq_some first
  obtain rfl : entry.2.name = name := of_decide_eq_true (List.find?_some first :)
  obtain ⟨rfl, rfl⟩ := Prod.mk.inj listedAs
  obtain ⟨holds, alike⟩ := follows.holds.closed isHeld
  refine ⟨_, holds, ?_, ?_, ?_, ?_, alike.creator.trans follows.creator⟩
  · rw [NativeHistory.opened, ← follows.opened, List.filter_map]
    refine congrArg (List.map Prod.snd) (List.filter_congr fun other otherHeld => ?_)
    refine decide_eq_decide.mpr ⟨.inr, fun kept => ?_⟩
    rcases kept with permanent | differs
    · intro same
      obtain rfl := follows.holds.unique otherHeld isHeld same
      rw [show other.2.permanent = false from closable] at permanent
      cases permanent
    · exact differs
  · rw [alike.source]
    exact follows.offered
  · rw [alike.added]
    exact follows.added
  · rw [alike.created]
    exact follows.created

/-- Nothing happens when the library is not open, or is permanent. -/
theorem unloadLibrary_of_kept (follows : resolver.Follows catalog history held) {name : String}
    (kept : ∀ canonical library, resolver.findLibrary? name = some (canonical, library) →
      library.permanent = true) :
    resolver.Follows catalog (.unloadLibrary name :: history) held := by
  refine ⟨follows.holds, ?_, follows.offered, follows.added, follows.created, follows.creator⟩
  rw [NativeHistory.opened, ← follows.opened]
  refine (List.filter_eq_self.mpr fun library member => decide_eq_true ?_).symm
  obtain ⟨entry, isHeld, rfl⟩ := List.mem_map.mp member
  by_cases same : entry.2.name = name
  · have found : resolver.findLibrary? name = some (listed entry) := by
      rw [follows.holds.findLibrary?, ← same, follows.holds.find isHeld]
      rfl
    exact .inl (kept _ _ found)
  · exact .inr same

end Follows

end Resolver

end IncrementalC
