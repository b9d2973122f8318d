import IncrementalC.Text.Keyed
import IncrementalC.Toml.Scalar

/-!
Contract: tables of TOML and what may be added to them.

A table comes into being in one of four ways, and the way decides what may be added to
it later. No key is ever set twice.

Owns:
- values with parts;
- finding the table at the end of a path, and creating the tables on the way;
- adding a key, the table of a header, and an element of a list of tables.

Does not own: how any of this is written.
-/

namespace IncrementalC.Toml

/-- How a table came into being. -/
inductive TableKind where
  /-- By a header of its own. -/
  | headed
  /-- By a longer header. -/
  | implied
  /-- By a key of several parts. -/
  | dotted
  /-- Between braces. -/
  | inline
deriving DecidableEq, Repr

/-- Values. -/
inductive Node where
  | scalar (value : Scalar)
  | array (elements : List Node)
  | table (kind : TableKind) (entries : List (String × Node))
  /-- A list of tables, each with a header of its own; the last one can still grow. -/
  | tables (elements : List (List (String × Node)))

instance : Inhabited Node := ⟨.array []⟩

/-- The keys of a table and their values. -/
abbrev Entries : Type := Keyed Node

/-- A key of one or more parts. -/
structure KeyPath where
  parents : List String
  name : String
deriving DecidableEq, Repr

namespace Entries

/-- Changes the table at the end of a path, where missing tables come into being as
`created`. The change is told the kind of the table. What a path leads through has to be
a table or a list of tables, and a key of several parts cannot lead through a table that
has a header. -/
def update (created : TableKind) (change : TableKind → Entries → Option Entries) :
    (path : List String) → (kind : TableKind) → Entries → Option Entries
  | [], kind, entries => change kind entries
  | key :: rest, _, entries =>
    match entries.get? key with
    | none =>
      (update created change rest created []).map fun inner =>
        entries.set key (.table created inner)
    | some (.table kind inner) =>
      if kind = .inline ∨ (kind = .headed ∧ created = .dotted) then none
      else
        (update created change rest kind inner).map fun inner =>
          entries.set key (.table kind inner)
    | some (.tables elements) =>
      match elements.getLast? with
      | none => none
      | some last =>
        (update created change rest .headed last).map fun last =>
          entries.set key (.tables (elements.dropLast ++ [last]))
    | some (.scalar _) | some (.array _) => none

/-- Sets a new key. A key of several parts sets a key of a table that came into being by
such a key. -/
def insert (entries : Entries) (path : KeyPath) (value : Node) : Option Entries :=
  update .dotted
    (fun kind entries =>
      if (!path.parents.isEmpty && decide (kind ≠ .dotted)) || (entries.get? path.name).isSome then
        none
      else
        some (entries.set path.name value))
    path.parents .headed entries

/-- Adds the table of a header, which at most a longer header may have implied. -/
def addTable (entries : Entries) (path : KeyPath) : Option Entries :=
  update .implied
    (fun _ entries =>
      match entries.get? path.name with
      | none => some (entries.set path.name (.table .headed []))
      | some (.table .implied inner) => some (entries.set path.name (.table .headed inner))
      | some _ => none)
    path.parents .headed entries

/-- Adds an element to a list of tables, which the first element creates. -/
def addElement (entries : Entries) (path : KeyPath) : Option Entries :=
  update .implied
    (fun _ entries =>
      match entries.get? path.name with
      | none => some (entries.set path.name (.tables [[]]))
      | some (.tables elements) => some (entries.set path.name (.tables (elements ++ [[]])))
      | some _ => none)
    path.parents .headed entries

/-- Sets a new key in the table that the latest header of that path opened. -/
def insertUnder (entries : Entries) (header : List String) (path : KeyPath) (value : Node) :
    Option Entries :=
  update .implied (fun _ entries => insert entries path value) header .headed entries

end Entries

end IncrementalC.Toml
