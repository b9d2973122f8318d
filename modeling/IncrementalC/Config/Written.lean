import IncrementalC.Config.Basic
import IncrementalC.Files.Tree
import IncrementalC.Toml.Document
import IncrementalC.Toml.Writer

/-!
Contract: settings as TOML text.

Every key may be left out and then has its usual value; keys that are no settings are
ignored. All settings are written.

Owns:
- the keys of the settings and the values they take;
- reading settings from a text, from a file, and from the file that the environment
  names;
- the text of settings.

Does not own: TOML itself.
-/

namespace IncrementalC

/-- Why settings were not read. -/
inductive ConfigError where
  /-- The file cannot be read. -/
  | unreadable
  /-- The text is no TOML, or a setting has a value it does not take. -/
  | malformed
deriving DecidableEq, Repr

namespace UnloadPolicy

/-- The name of a policy in settings. -/
def render : UnloadPolicy → String
  | .allowDangling => "allow-dangling"
  | .rejectLiveDependents => "reject-live-dependents"

def ofName? (name : String) : Option UnloadPolicy :=
  [allowDangling, rejectLiveDependents].find? fun policy => policy.render = name

end UnloadPolicy

namespace Toml.Node

/-! ## The values that settings take -/

def boolean? : Node → Option Bool
  | .scalar (.boolean value) => some value
  | _ => none

/-- An integer that is not negative. -/
def natural? : Node → Option Nat
  | .scalar (.integer value) => value.toNat?
  | _ => none

def text? : Node → Option String
  | .scalar (.text content) => some content
  | _ => none

def texts? : Node → Option (List String)
  | .array elements => elements.mapM text?
  | _ => none

/-- Whether a value has parts and none is there. -/
def isEmpty : Node → Bool
  | .array elements => elements.isEmpty
  | .table _ entries => entries.isEmpty
  | .tables elements => elements.isEmpty
  | .scalar _ => false

/-- A policy: its name, or a table that has the name as its only key and holds nothing
there. -/
def policy? : Node → Option UnloadPolicy
  | .scalar (.text name) => UnloadPolicy.ofName? name
  | .table _ [(name, value)] => if value.isEmpty then UnloadPolicy.ofName? name else none
  | _ => none

end Toml.Node

namespace Config

open Toml (Entries Node)

/-- The value of a key, or the usual one if the key is left out. -/
def setting? {α : Type} (entries : Entries) (key : String) (read : Node → Option α)
    (usual : α) : Option α :=
  match entries.get? key with
  | none => some usual
  | some node => read node

/-- The settings that entries give. -/
def ofEntries? (entries : Entries) : Option Config := do
  return {
    rawInput := ← setting? entries "raw-input" Node.boolean? standard.rawInput
    printsCode := ← setting? entries "print-ir" Node.boolean? standard.printsCode
    fatalWarnings := ← setting? entries "fatal-warnings" Node.boolean? standard.fatalWarnings
    unloadPolicy := ← setting? entries "unload-policy" Node.policy? standard.unloadPolicy
    librarySearchPaths :=
      ← setting? entries "library-search-paths" Node.texts? standard.librarySearchPaths
    maxCallDepth := ← setting? entries "max-call-depth" Node.natural? standard.maxCallDepth
    maxFrameSlots := ← setting? entries "max-frame-slots" Node.natural? standard.maxFrameSlots
    runsDestructorsOnDrop :=
      ← setting? entries "run-destructors-on-drop" Node.boolean? standard.runsDestructorsOnDrop }

/-! ## Reading -/

/-- The settings that a text gives. -/
def parse (text : String) : Except ConfigError Config :=
  match (Toml.parse? text).bind ofEntries? with
  | none => .error .malformed
  | some config => .ok config

/-- The settings that a file gives. -/
def load (files : Files.FileTree) (path : String) : Except ConfigError Config :=
  match files.readText? path with
  | none => .error .unreadable
  | some text => parse text

/-- The settings that the file named by the environment gives, or the usual ones if
none is named. -/
def ofEnvironment (files : Files.FileTree) : (path : Option String) → Except ConfigError Config
  | none => .ok standard
  | some path => load files path

/-! ## Writing -/

/-- The text of settings. -/
def render (config : Config) : String :=
  open Toml.Writer in
  pair "raw-input" (boolean config.rawInput) ++
    pair "print-ir" (boolean config.printsCode) ++
    pair "fatal-warnings" (boolean config.fatalWarnings) ++
    pair "unload-policy" (string config.unloadPolicy.render) ++
    pair "library-search-paths" (strings config.librarySearchPaths) ++
    pair "max-call-depth" (toString config.maxCallDepth) ++
    pair "max-frame-slots" (toString config.maxFrameSlots) ++
    pair "run-destructors-on-drop" (boolean config.runsDestructorsOnDrop)

end Config

end IncrementalC
