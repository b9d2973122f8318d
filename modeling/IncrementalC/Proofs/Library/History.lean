import IncrementalC.Library.Resolver

/-!
Contract: which native function a name denotes, told from what was asked.

A history lists what was asked of whoever provides native functions, newest first. It
alone says what was added, which libraries are open and as what they were opened, what
the lazy creator has supplied, and when it was asked.

The creator of one request answers by the name alone. A creator with a state of its own
is one that is installed anew before each request.

Owns:
- what can be asked, and histories of it;
- the libraries that a history leaves open, in the order of opening;
- the function that a name denotes after a history, and the names for which the creator
  was asked.

Does not own: tables and handles.
-/

namespace IncrementalC

/-- What can be asked of whoever provides native functions. -/
inductive NativeRequest where
  | addFunction (name : String) (function : NativeFunction)
  /-- The catalog gets a library, in the stead of an earlier one of the same name. -/
  | provideLibrary (name : String) (library : Library)
  | loadLibrary (files : Files.FileTree) (name : String) (permanent : Bool)
      (searchPaths : List String)
  | unloadLibrary (name : String)
  | setCreator (creator : FunctionCreator)
  | resolve (name : String)

/-- What was asked, newest first. -/
abbrev NativeHistory : Type := List NativeRequest

/-- A library as the catalog had it when it was opened. -/
structure OpenedLibrary where
  name : String
  library : Library
  permanent : Bool

namespace NativeHistory

/-- The function most recently added under a name. -/
def added? (name : String) (history : NativeHistory) : Option NativeFunction :=
  history.findSome? fun
    | .addFunction other function => if name = other then some function else none
    | _ => none

/-- The current lazy creator. -/
def creator? (history : NativeHistory) : Option FunctionCreator :=
  history.findSome? fun
    | .setCreator creator => some creator
    | _ => none

section

/- The catalog before anything was asked. -/
variable (catalog : Keyed Library)

/-- The library that the catalog has under a name. -/
def offered? (name : String) (history : NativeHistory) : Option Library :=
  (history.findSome? fun
    | .provideLibrary other library => if name = other then some library else none
    | _ => none).or (catalog.get? name)

/-- The libraries that are open, earliest opened first. A library that is open already is
not opened again, and a permanent one is never closed. -/
def opened : NativeHistory → List OpenedLibrary
  | [] => []
  | .loadLibrary _ name permanent _ :: earlier =>
    match offered? catalog name earlier with
    | none => opened earlier
    | some library =>
      if name ∈ (opened earlier).map OpenedLibrary.name then opened earlier
      else opened earlier ++ [⟨name, library, permanent⟩]
  | .unloadLibrary name :: earlier =>
    (opened earlier).filter fun library => library.permanent ∨ library.name ≠ name
  | .addFunction _ _ :: earlier | .provideLibrary _ _ :: earlier | .setCreator _ :: earlier
  | .resolve _ :: earlier => opened earlier

/-- The function that the earliest opened library with that name exports. -/
def exported? (name : String) (history : NativeHistory) : Option NativeFunction :=
  (opened catalog history).findSome? fun entry => entry.library.functions.get? name

/-- The function that is there without the lazy creator. -/
def provided? (name : String) (history : NativeHistory) : Option NativeFunction :=
  (added? name history).or (exported? catalog name history)

/-- What the lazy creator first supplied under a name: its answer to the first request
that nothing else could serve and to which it had an answer. -/
def supplied? (name : String) : NativeHistory → Option NativeFunction
  | [] => none
  | .resolve other :: earlier =>
    (supplied? name earlier).or
      (if other = name ∧ provided? catalog name earlier = none then
        (creator? earlier).bind fun create => create name
      else none)
  | .addFunction _ _ :: earlier | .provideLibrary _ _ :: earlier | .loadLibrary _ _ _ _ :: earlier
  | .unloadLibrary _ :: earlier | .setCreator _ :: earlier => supplied? name earlier

/-- The function that a name denotes. -/
def function? (name : String) (history : NativeHistory) : Option NativeFunction :=
  (provided? catalog name history).or
    ((supplied? catalog name history).or ((creator? history).bind fun create => create name))

/-- Whether a request for a name goes to the lazy creator: there is one, nothing provides
the name, and no creator has supplied it yet. -/
def Asks (name : String) (history : NativeHistory) : Prop :=
  provided? catalog name history = none ∧ supplied? catalog name history = none ∧
    (creator? history).isSome

instance (name : String) (history : NativeHistory) : Decidable (Asks catalog name history) :=
  inferInstanceAs (Decidable (_ ∧ _ ∧ _))

/-- The names for which the lazy creator was asked, latest first. -/
def asked : NativeHistory → List String
  | [] => []
  | .resolve name :: earlier =>
    if Asks catalog name earlier then name :: asked earlier else asked earlier
  | .addFunction _ _ :: earlier | .provideLibrary _ _ :: earlier | .loadLibrary _ _ _ _ :: earlier
  | .unloadLibrary _ :: earlier | .setCreator _ :: earlier => asked earlier

end

theorem added?_addFunction (name other : String) (function : NativeFunction)
    (earlier : NativeHistory) :
    added? name (.addFunction other function :: earlier) =
      if name = other then some function else added? name earlier := by
  unfold added?
  rw [List.findSome?_cons]
  by_cases same : name = other
  · simp only [if_pos same]
  · simp only [if_neg same]

theorem offered?_provideLibrary (catalog : Keyed Library) (name other : String)
    (library : Library) (earlier : NativeHistory) :
    offered? catalog name (.provideLibrary other library :: earlier) =
      if name = other then some library else offered? catalog name earlier := by
  unfold offered?
  rw [List.findSome?_cons]
  by_cases same : name = other
  · simp only [if_pos same, Option.some_or]
  · simp only [if_neg same]

/-! ## What stays -/

variable {catalog : Keyed Library}

/-- What was supplied once is supplied for ever, whatever creator comes later. -/
theorem supplied?_append {name : String} {history : NativeHistory} {function : NativeFunction}
    (supplied : supplied? catalog name history = some function) (later : NativeHistory) :
    supplied? catalog name (later ++ history) = some function := by
  induction later with
  | nil => exact supplied
  | cons request later inductionHypothesis =>
    cases request with
    | resolve other =>
      rw [List.cons_append, supplied?, inductionHypothesis, Option.some_or]
    | addFunction | provideLibrary | loadLibrary | unloadLibrary | setCreator =>
      exact inductionHypothesis

/-- The creator is never asked again for a name that was supplied. -/
theorem count_asked_append {name : String} {history : NativeHistory} {function : NativeFunction}
    (supplied : supplied? catalog name history = some function) (later : NativeHistory) :
    (asked catalog (later ++ history)).count name = (asked catalog history).count name := by
  induction later with
  | nil => rfl
  | cons request later inductionHypothesis =>
    cases request with
    | resolve other =>
      rw [List.cons_append, asked]
      split
      · next asks =>
        have differs : other ≠ name := by
          rintro rfl
          have unsupplied := asks.2.1
          rw [supplied?_append supplied later] at unsupplied
          cases unsupplied
        rw [List.count_cons_of_ne differs]
        exact inductionHypothesis
      · exact inductionHypothesis
    | addFunction | provideLibrary | loadLibrary | unloadLibrary | setCreator =>
      exact inductionHypothesis

end NativeHistory

end IncrementalC
