/-!
Contract: paths of files.

A path is text with names between slashes. A path that starts with a slash is
absolute. The reading of a path drops empty names and, except at the start of a
relative path, single dots; double dots keep their place, as only a file tree can
tell what they mean.

Owns: the parts of a path, joining paths, and the names of shared objects.

Does not own: which files there are.
-/

namespace IncrementalC.Files

/-- The names between the slashes of a text, in order. -/
def splitSlashes (characters : List Char) : List (List Char) :=
  characters.foldr
    (fun character names =>
      if character = '/' then [] :: names
      else match names with
        | [] => [[character]]
        | name :: rest => (character :: name) :: rest)
    [[]]

/-- Whether a path starts at the root. -/
def isAbsolute (path : String) : Bool := path.toList.head? = some '/'

/-- The names of a path, without empty ones. -/
def pathNames (path : String) : List String :=
  ((splitSlashes path.toList).filter fun name => !name.isEmpty).map String.ofList

/-- The number of parts of a path: the root, a single dot at the start of a relative
path, and every other name but single dots. -/
def partCount (path : String) : Nat :=
  let names := pathNames path
  let leading := if isAbsolute path ∨ names.head? = some "." then 1 else 0
  leading + (names.filter fun name => name ≠ ".").length

/-- A path inside a directory; an absolute path stands for itself. -/
def joinPath (directory path : String) : String :=
  if isAbsolute path ∨ directory.isEmpty then path
  else if directory.toList.getLast? = some '/' then directory ++ path
  else directory ++ "/" ++ path

/-- Whether `part` stands anywhere in a text. -/
def occursIn (part : List Char) : List Char → Bool
  | [] => part.isEmpty
  | character :: rest => part.isPrefixOf (character :: rest) || occursIn part rest

/-- Whether a file name has the ending of a shared object, with or without a version
behind it. -/
def looksLikeSharedObject (name : String) : Bool :=
  let characters := name.toList
  ".so".toList.isSuffixOf characters || occursIn ".so.".toList characters ||
    ".dylib".toList.isSuffixOf characters || ".dll".toList.isSuffixOf characters

end IncrementalC.Files
