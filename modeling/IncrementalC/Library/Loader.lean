import IncrementalC.AtExit.Registry
import IncrementalC.Files.Tree
import IncrementalC.Host.Native
import IncrementalC.Text.Keyed

/-!
Contract: finding, opening and closing libraries of native functions.

Libraries come from a catalog in memory, or from shared objects. An open library is the
catalog's at the time of opening. What a shared object holds is for the system to say:
which canonical names it opens, and to what, is given with the source of libraries.

Handles are kept in 32 bits, and are taken here not to run out.

Owns:
- libraries, the catalog of them, and shared objects;
- the canonical name that a requested name leads to;
- the libraries that are open, by handle.

Does not own: the order in which open libraries are searched.
-/

namespace IncrementalC

open Files (FileTree)

/-- A library in memory. -/
structure Library where
  functions : Keyed NativeFunction
  /-- To run, in order, before the library is closed. -/
  destructors : List Destructor

/-- A shared object, as the system opens it: the code at the address of each name that it
exports, if the address is not null. -/
structure SharedObject where
  exports : Keyed (Option HostFunction)

/-- The library in a shared object. It exports foreign functions, and has nothing to run
before it is closed. -/
def SharedObject.library (object : SharedObject) : Library where
  functions := object.exports.map fun entry => (entry.1, .foreign entry.1 entry.2)
  destructors := []

/-- The handle of an open library; handles are never used again. -/
structure LibraryHandle where
  number : Nat
deriving DecidableEq, Repr, Inhabited

/-- Why a library was not opened. -/
inductive LoaderError where
  | notFound (name : String)
  | notLoadable (name : String)
deriving DecidableEq, Repr

/-- The wording of an error. -/
def LoaderError.message : LoaderError → String
  | .notFound name => "library `" ++ name ++ "` not found"
  | .notLoadable name => "failed to open `" ++ name ++ "`"

/-- Where libraries come from. -/
inductive LibrarySource where
  | catalog (libraries : Keyed Library)
  /-- The shared objects that the system opens, by canonical name; none unless told. -/
  | sharedObjects (objects : String → Option SharedObject := fun _ => none)

/-- The library to open under a canonical name. -/
def LibrarySource.library (source : LibrarySource) (name : String) : Except LoaderError Library :=
  match source with
  | .catalog libraries =>
    match libraries.get? name with
    | none => .error (.notFound name)
    | some library => .ok library
  | .sharedObjects objects =>
    match objects name with
    | none => .error (.notLoadable name)
    | some object => .ok object.library

/-- A library that is open. -/
structure LoadedLibrary where
  handle : LibraryHandle
  name : String
  library : Library

/-- The source of libraries and those that are open. -/
structure Loader where
  source : LibrarySource
  loaded : List LoadedLibrary
  nextHandle : Nat

namespace Loader

/-- A loader with no library open. -/
def new (source : LibrarySource) : Loader := ⟨source, [], 0⟩

/-- Makes a library available under a name; libraries that are open stay as they
are. -/
def provide (loader : Loader) (name : String) (library : Library) : Loader :=
  match loader.source with
  | .catalog libraries => { loader with source := .catalog (libraries.set name library) }
  | .sharedObjects _ => loader

/-- The file names under which a library may stand in a search directory. -/
def fileNames (name : String) : List String := [name, "lib" ++ name ++ ".so"]

/-- The first file of a library in the search directories. A name of more than one
part is not searched for. -/
def searchFile? (files : FileTree) (name : String) (searchPaths : List String) : Option String :=
  (searchPaths.flatMap fun directory =>
    (fileNames name).map fun file => Files.joinPath directory file).find? files.isFile

/-- The canonical name of a shared object: that of the file the name leads to, else
of the first file found in the search directories, else the bare name of a shared
object, which is left to the system's own search. -/
def locateSharedObject? (files : FileTree) (name : String) (searchPaths : List String) :
    Option String :=
  if files.isFile name then
    files.canonical? name
  else if Files.partCount name = 1 then
    match searchFile? files name searchPaths with
    | some path => files.canonical? path
    | none => if Files.looksLikeSharedObject name then some name else none
  else
    none

/-- The canonical name of a library, if there is one of that name. -/
def locate? (loader : Loader) (files : FileTree) (name : String) (searchPaths : List String) :
    Option String :=
  match loader.source with
  | .catalog libraries => (libraries.get? name).map fun _ => name
  | .sharedObjects _ => locateSharedObject? files name searchPaths

/-- Opens a library by its canonical name. -/
def openLibrary (loader : Loader) (name : String) : Except LoaderError (LibraryHandle × Loader) :=
  match loader.source.library name with
  | .error error => .error error
  | .ok library =>
    let handle : LibraryHandle := ⟨loader.nextHandle⟩
    .ok (handle,
      { loader with
        loaded := loader.loaded ++ [⟨handle, name, library⟩],
        nextHandle := loader.nextHandle + 1 })

/-- The open library with a handle. -/
def loaded? (loader : Loader) (handle : LibraryHandle) : Option LoadedLibrary :=
  loader.loaded.find? fun entry => entry.handle = handle

/-- The function that an open library exports under a name. -/
def function? (loader : Loader) (handle : LibraryHandle) (name : String) :
    Option NativeFunction :=
  (loader.loaded? handle).bind fun entry => entry.library.functions.get? name

/-- The destructors of an open library. -/
def destructors (loader : Loader) (handle : LibraryHandle) : List Destructor :=
  match loader.loaded? handle with
  | none => []
  | some entry => entry.library.destructors

/-- Closes an open library. -/
def close (loader : Loader) (handle : LibraryHandle) : Loader :=
  { loader with loaded := loader.loaded.filter fun entry => entry.handle ≠ handle }

end Loader

end IncrementalC
