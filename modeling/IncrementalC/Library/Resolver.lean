import IncrementalC.Library.Loader

/-!
Contract: which native function a name denotes.

A function that was added under a name comes first; then the libraries that are open,
in the order of opening; then what the lazy creator has once supplied; last the lazy
creator is asked. Asking it shows in the trace.

A creator answers by the name alone. What it supplies is kept, so it is asked again only for
what it does not have. One that has more names later on is another creator, installed then.

Owns: added functions, open libraries by canonical name, and the answers of the lazy
creator.

Does not own: names that generated code defines.
-/

namespace IncrementalC

/-- The last resort for names that nothing provides. -/
abbrev FunctionCreator : Type := String → Option NativeFunction

/-- An open library as it was asked for. -/
structure OpenLibrary where
  /-- The name it was asked for under. -/
  requested : String
  handle : LibraryHandle
  /-- A permanent library is never closed. -/
  permanent : Bool
deriving DecidableEq, Repr

/-- Everything that provides native functions. -/
structure Resolver where
  added : Keyed NativeFunction
  /-- By canonical name, in the order of opening. -/
  libraries : Keyed OpenLibrary
  loader : Loader
  creator : Option FunctionCreator
  created : Keyed NativeFunction

namespace Resolver

/-- A resolver that provides nothing yet. -/
def new (source : LibrarySource) : Resolver := ⟨[], [], .new source, none, []⟩

/-- Adds a function, in the stead of an earlier one of the same name. -/
def addFunction (resolver : Resolver) (name : String) (function : NativeFunction) : Resolver :=
  { resolver with added := resolver.added.set name function }

/-- Installs the lazy creator. -/
def setCreator (resolver : Resolver) (creator : FunctionCreator) : Resolver :=
  { resolver with creator := some creator }

/-- The function that the open libraries export under a name. -/
def exported? (resolver : Resolver) (name : String) : Option NativeFunction :=
  resolver.libraries.findSome? fun entry => resolver.loader.function? entry.2.handle name

/-- What is known under a name without asking the lazy creator. -/
def known? (resolver : Resolver) (name : String) : Option NativeFunction :=
  match resolver.added.get? name with
  | some function => some function
  | none =>
    match resolver.exported? name with
    | some function => some function
    | none => resolver.created.get? name

/-- The function under a name. -/
def resolve (resolver : Resolver) (name : String) (trace : Trace) :
    Option NativeFunction × Resolver × Trace :=
  match resolver.known? name with
  | some function => (some function, resolver, trace)
  | none =>
    match resolver.creator with
    | none => (none, resolver, trace)
    | some create =>
      match create name with
      | none => (none, resolver, .functionRequested name :: trace)
      | some function =>
        (some function, { resolver with created := resolver.created.set name function },
          .functionRequested name :: trace)

/-- The first open library with a canonical or requested name, and its canonical
name. -/
def findLibrary? (resolver : Resolver) (name : String) : Option (String × OpenLibrary) :=
  resolver.libraries.find? fun entry => entry.1 = name ∨ entry.2.requested = name

/-- Opens a library by its canonical name. -/
def openLibrary (resolver : Resolver) (requested canonical : String) (permanent : Bool) :
    Except LoaderError (LibraryHandle × Resolver) :=
  match resolver.loader.openLibrary canonical with
  | .error error => .error error
  | .ok (handle, loader) =>
    .ok (handle,
      { resolver with
        loader,
        libraries := resolver.libraries.set canonical ⟨requested, handle, permanent⟩ })

/-- Closes an open library by its canonical name. -/
def closeLibrary (resolver : Resolver) (canonical : String) : Option OpenLibrary × Resolver :=
  match resolver.libraries.get? canonical with
  | none => (none, resolver)
  | some library =>
    (some library,
      { resolver with
        libraries := resolver.libraries.erase canonical,
        loader := resolver.loader.close library.handle })

end Resolver

end IncrementalC
