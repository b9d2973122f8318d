import IncrementalC.Library.Resolver

/-!
Contract: resolving names does not change what they resolve to.

The creator answers by the name alone, so that remembering its answers changes none.

Owns: the function that a name stands for, resolvers that continue another one, and the names of
the open libraries when one is opened or closed.

Does not own: when a library is opened or closed.
-/

namespace IncrementalC

theorem Keyed.set_absent {α : Type} {entries : Keyed α} {name : String}
    (absent : name ∉ entries.map Prod.fst) (value : α) :
    entries.set name value = entries ++ [(name, value)] := by
  induction entries with
  | nil => rfl
  | cons entry rest inductionHypothesis =>
    rw [List.map_cons, List.mem_cons, not_or] at absent
    rw [Keyed.set, if_neg (Ne.symm absent.1), inductionHypothesis absent.2, List.cons_append]

namespace Resolver

/-- The function that a name stands for. -/
def native? (resolver : Resolver) (name : String) : Option NativeFunction :=
  match resolver.known? name with
  | some function => some function
  | none => resolver.creator.bind fun create => create name

theorem resolve_fst (resolver : Resolver) (name : String) (trace : Trace) :
    (resolver.resolve name trace).1 = resolver.native? name := by
  unfold resolve native?
  cases resolver.known? name with
  | some function => rfl
  | none =>
    cases resolver.creator with
    | none => rfl
    | some create =>
      simp only [Option.bind_some]
      cases create name <;> rfl

/-- An added function comes first; under other names nothing changes. -/
theorem native?_addFunction (resolver : Resolver) (name other : String)
    (function : NativeFunction) :
    (resolver.addFunction name function).native? other =
      if other = name then some function else resolver.native? other := by
  have exported : (resolver.addFunction name function).exported? other =
      resolver.exported? other := rfl
  unfold native? known?
  rw [exported]
  simp only [addFunction, Keyed.get?_set]
  by_cases same : other = name
  · rw [if_pos same, if_pos same]
  · rw [if_neg same, if_neg same]

/-- What is remembered is known. -/
theorem created_of_known?_eq_none {resolver : Resolver} {name : String}
    (unknown : resolver.known? name = none) : resolver.created.get? name = none := by
  unfold known? at unknown
  split at unknown
  · cases unknown
  · split at unknown
    · cases unknown
    · exact unknown

/-- `after` is `before` with more answers of the creator. -/
structure Continues (before after : Resolver) : Prop where
  added : after.added = before.added
  libraries : after.libraries = before.libraries
  loader : after.loader = before.loader
  creator : after.creator = before.creator
  remembered : ∀ name function, before.created.get? name = some function →
    after.created.get? name = some function
  answered : ∀ name function, after.created.get? name = some function →
    before.created.get? name = some function ∨
      (before.known? name = none ∧ ∃ create, before.creator = some create ∧
        create name = some function)

namespace Continues

variable {before between after : Resolver}

theorem refl (resolver : Resolver) : resolver.Continues resolver :=
  ⟨rfl, rfl, rfl, rfl, fun _ _ => id, fun _ _ => .inl⟩

theorem exported?_eq (continues : before.Continues after) (name : String) :
    after.exported? name = before.exported? name := by
  unfold exported?
  rw [continues.libraries, continues.loader]

/-- What was known is known as the same function. -/
theorem known? (continues : before.Continues after) {name : String} {function : NativeFunction}
    (known : before.known? name = some function) : after.known? name = some function := by
  unfold Resolver.known? at known ⊢
  rw [continues.added, continues.exported?_eq]
  cases added : before.added.get? name with
  | some own =>
    rw [added] at known
    exact known
  | none =>
    rw [added] at known
    cases exported : before.exported? name with
    | some own =>
      rw [exported] at known
      exact known
    | none =>
      rw [exported] at known
      exact continues.remembered name function known

/-- What becomes known is the answer of the creator. -/
theorem known?_of_none (continues : before.Continues after) {name : String}
    {function : NativeFunction} (unknown : before.known? name = none)
    (known : after.known? name = some function) :
    ∃ create, before.creator = some create ∧ create name = some function := by
  have unknownParts := unknown
  unfold Resolver.known? at known unknownParts
  rw [continues.added, continues.exported?_eq] at known
  cases added : before.added.get? name with
  | some own =>
    rw [added] at unknownParts
    cases unknownParts
  | none =>
    rw [added] at known unknownParts
    cases exported : before.exported? name with
    | some own =>
      rw [exported] at unknownParts
      cases unknownParts
    | none =>
      rw [exported] at known unknownParts
      rcases continues.answered name function known with old | ⟨-, answer⟩
      · have absent : before.created.get? name = none := unknownParts
        rw [absent] at old
        cases old
      · exact answer

theorem native?_eq (continues : before.Continues after) (name : String) :
    after.native? name = before.native? name := by
  unfold native?
  rw [continues.creator]
  cases old : before.known? name with
  | some function => rw [continues.known? old]
  | none =>
    cases new : after.known? name with
    | none => rfl
    | some function =>
      obtain ⟨create, creator, answer⟩ := continues.known?_of_none old new
      rw [creator]
      exact answer.symm

theorem trans (first : before.Continues between) (second : between.Continues after) :
    before.Continues after where
  added := second.added.trans first.added
  libraries := second.libraries.trans first.libraries
  loader := second.loader.trans first.loader
  creator := second.creator.trans first.creator
  remembered name function old :=
    second.remembered name function (first.remembered name function old)
  answered name function new := by
    rcases second.answered name function new with old | ⟨unknown, create, creator, answer⟩
    · exact first.answered name function old
    · refine .inr ⟨?_, create, first.creator.symm.trans creator, answer⟩
      cases known : before.known? name with
      | none => rfl
      | some other =>
        rw [first.known? known] at unknown
        cases unknown

end Continues

theorem resolve_continues (resolver : Resolver) (name : String) (trace : Trace) :
    resolver.Continues (resolver.resolve name trace).2.1 := by
  unfold resolve
  cases unknown : resolver.known? name with
  | some function => exact Continues.refl resolver
  | none =>
    cases creator : resolver.creator with
    | none => exact Continues.refl resolver
    | some create =>
      cases answer : create name with
      | none =>
        simp only [answer]
        exact Continues.refl resolver
      | some function =>
        simp only [answer]
        have unmade := created_of_known?_eq_none unknown
        refine ⟨rfl, rfl, rfl, creator.symm, ?_, ?_⟩
        · intro other kept old
          rw [Keyed.get?_set]
          have differs : other ≠ name := by
            rintro rfl
            rw [unmade] at old
            cases old
          rw [if_neg differs]
          exact old
        · intro other kept new
          rw [Keyed.get?_set] at new
          by_cases same : other = name
          · rw [if_pos same] at new
            obtain rfl := Option.some.inj new
            exact .inr ⟨same ▸ unknown, create, creator, same ▸ answer⟩
          · rw [if_neg same] at new
            exact .inl new

/-! ## The names of open libraries -/

/-- The canonical names of the open libraries, in the order of opening. -/
def libraryNames (resolver : Resolver) : List String := resolver.libraries.map Prod.fst

theorem notMem_libraryNames {resolver : Resolver} {name : String}
    (unknown : resolver.findLibrary? name = none) : name ∉ resolver.libraryNames := by
  intro member
  obtain ⟨entry, opened, same⟩ := List.mem_map.mp member
  exact List.find?_eq_none.mp unknown entry opened (decide_eq_true (.inl same))

theorem mem_libraryNames {resolver : Resolver} {name canonical : String} {library : OpenLibrary}
    (found : resolver.findLibrary? name = some (canonical, library)) :
    canonical ∈ resolver.libraryNames :=
  List.mem_map.mpr ⟨_, List.mem_of_find?_eq_some found, rfl⟩

/-- A library that is not open yet is the last one once it is opened. -/
theorem libraryNames_openLibrary {resolver opened : Resolver} {requested canonical : String}
    {permanent : Bool} {handle : LibraryHandle} (closed : canonical ∉ resolver.libraryNames)
    (opens : resolver.openLibrary requested canonical permanent = .ok (handle, opened)) :
    opened.libraryNames = resolver.libraryNames ++ [canonical] := by
  unfold openLibrary at opens
  split at opens
  · cases opens
  · cases opens
    unfold libraryNames
    rw [Keyed.set_absent closed, List.map_append]
    rfl

theorem libraryNames_closeLibrary (resolver : Resolver) (canonical : String) :
    (resolver.closeLibrary canonical).2.libraryNames =
      resolver.libraryNames.filter (· ≠ canonical) := by
  unfold closeLibrary
  cases found : resolver.libraries.get? canonical with
  | none =>
    refine (List.filter_eq_self.mpr fun name member => decide_eq_true ?_).symm
    rintro rfl
    obtain ⟨entry, opened, same⟩ := List.mem_map.mp member
    exact List.find?_eq_none.mp (Option.map_eq_none_iff.mp found) entry opened (decide_eq_true same)
  | some library =>
    change (resolver.libraries.erase canonical).map Prod.fst = _
    unfold Keyed.erase libraryNames
    rw [List.filter_map]
    rfl

end Resolver

end IncrementalC
