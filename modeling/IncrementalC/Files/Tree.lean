import IncrementalC.Files.Path

/-!
Contract: the files that the interpreter can see.

A tree holds files and directories under absolute names without dots. Every directory
on the way to an entry is an entry itself. Relative paths start from the working
directory, which is the root unless the tree names another.

Owns:
- adding files and directories;
- what a path leads to, name by name, and its canonical form;
- the text of a file.

Does not own: files outside the tree.
-/

namespace IncrementalC.Files

/-- What stands under a name. -/
inductive Node where
  | directory
  /-- The directory that relative paths start from. -/
  | workingDirectory
  | file (content : ByteArray)

/-- Files and directories by the names from the root. -/
abbrev FileTree : Type := List (List String × Node)

namespace FileTree

/-- What stands under names without dots; the root is a directory. -/
def node? (tree : FileTree) (names : List String) : Option Node :=
  if names.isEmpty then some .directory
  else (tree.find? fun entry => entry.1 = names).map Prod.snd

/-- Whether a directory stands under names without dots. -/
def hasDirectory (tree : FileTree) (names : List String) : Bool :=
  match tree.node? names with
  | some .directory | some .workingDirectory => true
  | _ => false

/-- The names of the directory that relative paths start from, the newest one of those that
were named. -/
def workingNames (tree : FileTree) : List String :=
  (tree.findSome? fun
    | (names, .workingDirectory) => some names
    | _ => none).getD []

/-- Places a node, in the stead of one that stands there. -/
def place (tree : FileTree) (names : List String) (node : Node) : FileTree :=
  (names, node) :: tree.filter fun entry => entry.1 ≠ names

/-- Adds the directory `names`, and those on the way to it behind `above`. -/
def addDirectories (tree : FileTree) (above : List String) : List String → FileTree
  | [] => tree
  | name :: rest =>
    let here := above ++ [name]
    addDirectories (if tree.hasDirectory here then tree else tree.place here .directory) here rest

/-- Adds a node under an absolute path, with the directories on the way to it. -/
def add (tree : FileTree) (path : String) (node : Node) : FileTree :=
  let names := pathNames path
  match node with
  | .directory => tree.addDirectories [] names
  | .workingDirectory | .file _ => (tree.addDirectories [] names.dropLast).place names node

/-- Follows names from the directory `above`: a name has to stand in a directory, a
single dot stays, and double dots go up. -/
def follow (tree : FileTree) (above : List String) : List String → Option (List String)
  | [] => some above
  | name :: rest =>
    if tree.hasDirectory above then
      if name = "." then follow tree above rest
      else if name = ".." then follow tree above.dropLast rest
      else if (tree.node? (above ++ [name])).isSome then follow tree (above ++ [name]) rest
      else none
    else
      none

/-- The names without dots that a path leads to. An empty path leads nowhere, and a path
with a slash at its end leads to a directory only. -/
def resolve? (tree : FileTree) (path : String) : Option (List String) :=
  if path.isEmpty then
    none
  else
    let start := if isAbsolute path then [] else tree.workingNames
    match tree.follow start (pathNames path) with
    | none => none
    | some names =>
      if path.toList.getLast? = some '/' ∧ ¬ tree.hasDirectory names then none else some names

/-- The written form of names from the root. -/
def renderNames (names : List String) : String :=
  "/" ++ String.intercalate "/" names

/-- The absolute path without dots that a path leads to. -/
def canonical? (tree : FileTree) (path : String) : Option String :=
  (tree.resolve? path).map renderNames

/-- The content of the file that a path leads to. -/
def content? (tree : FileTree) (path : String) : Option ByteArray :=
  match (tree.resolve? path).bind tree.node? with
  | some (.file content) => some content
  | _ => none

/-- Whether a path leads to a file. -/
def isFile (tree : FileTree) (path : String) : Bool := (tree.content? path).isSome

/-- The text of the file that a path leads to, if its bytes are text. -/
def readText? (tree : FileTree) (path : String) : Option String :=
  (tree.content? path).bind String.fromUTF8?

end FileTree

end IncrementalC.Files
