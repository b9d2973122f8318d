import IncrementalC.Transaction.Basic

/-!
Contract: the table of everything that was ever declared.

Records are numbered by their place in the table and are never removed. A record is
pending while its transaction is being compiled, visible after the commit, and
forgotten after a rollback or an unload; it is live as long as it is not forgotten.
An index lists the live records of each name, oldest first.

A number is stored in 32 bits, so it comes again when there are too many records. What is built on
tables declares without that limit, and is about tables in which the numbers have not run out.

Owns:
- what a declaration declares, and its visibility;
- adding, refining, committing and forgetting records;
- the numbers as they are stored;
- looking a name up.

Does not own: which declarations of one name may follow each other.
-/

namespace IncrementalC

/-- What a function gives back, once deduced. -/
inductive ReturnKind where
  | int
  | void
deriving DecidableEq, Repr

/-- What a name stands for. -/
inductive DeclarationKind where
  | variable
  /-- The definition is the transaction that holds the body, if one does. -/
  | function (arity : Nat) (returns : ReturnKind) (definition : Option TransactionId)
deriving DecidableEq, Repr

/-- Who can see a record. -/
inductive Visibility where
  | pending
  | visible
  | forgotten
deriving DecidableEq, Repr

structure DeclarationRecord where
  id : DeclarationId
  name : String
  kind : DeclarationKind
  owner : TransactionId
  visibility : Visibility
  span : Span
deriving DecidableEq, Repr

namespace DeclarationRecord

/-- Whether a record is not forgotten. -/
def isLive (record : DeclarationRecord) : Bool := record.visibility ≠ .forgotten

/-- Whether a record is live and belongs to `owner`. -/
def isLiveOf (owner : TransactionId) (record : DeclarationRecord) : Bool :=
  record.owner = owner ∧ record.isLive

/-- Whether committing `owner` changes a record. -/
def awaitsCommit (owner : TransactionId) (record : DeclarationRecord) : Bool :=
  record.owner = owner ∧ record.visibility = .pending

end DeclarationRecord

/-- All records, and the live ones of each name. -/
structure DeclarationTable where
  records : List DeclarationRecord
  index : List (String × List DeclarationId)
deriving DecidableEq, Repr

namespace DeclarationTable

/-- A table without records. -/
def empty : DeclarationTable := ⟨[], []⟩

/-! ## The index -/

/-- The index with `id` as the newest record of `name`. -/
def indexInsert (name : String) (id : DeclarationId) :
    List (String × List DeclarationId) → List (String × List DeclarationId)
  | [] => [(name, [id])]
  | entry :: rest =>
    if entry.1 = name then (name, entry.2 ++ [id]) :: rest
    else entry :: indexInsert name id rest

/-- The index without `id` under `name`; a name without records has no entry. -/
def indexRemove (name : String) (id : DeclarationId) :
    List (String × List DeclarationId) → List (String × List DeclarationId)
  | [] => []
  | entry :: rest =>
    if entry.1 = name then
      let remaining := entry.2.filter (· ≠ id)
      if remaining.isEmpty then rest else (name, remaining) :: rest
    else
      entry :: indexRemove name id rest

/-- The live records that the index lists under `name`, oldest first. -/
def indexed (table : DeclarationTable) (name : String) : List DeclarationId :=
  match table.index.find? fun entry => entry.1 = name with
  | some entry => entry.2
  | none => []

/-! ## Operations -/

/-- The record with a number. -/
def get? (table : DeclarationTable) (id : DeclarationId) : Option DeclarationRecord :=
  table.records[id.number]?

/-- The table with a pending record under a number. -/
def add (table : DeclarationTable) (id : DeclarationId) (name : String) (kind : DeclarationKind)
    (owner : TransactionId) (span : Span) : DeclarationTable where
  records := table.records ++ [⟨id, name, kind, owner, .pending, span⟩]
  index := indexInsert name id table.index

/-- Adds a pending record under the number of its place. -/
def declare (table : DeclarationTable) (name : String) (kind : DeclarationKind)
    (owner : TransactionId) (span : Span) : DeclarationId × DeclarationTable :=
  let id : DeclarationId := ⟨table.records.length⟩
  (id, table.add id name kind owner span)

/-- How many numbers can be stored in 32 bits. -/
def numberCount : Nat := 0x100000000

/-- The number of a place in the table, as it is stored. -/
def storedNumber (place : Nat) : DeclarationId := ⟨place % numberCount⟩

/-- Adds a pending record under the stored number of its place. -/
def declareStored (table : DeclarationTable) (name : String) (kind : DeclarationKind)
    (owner : TransactionId) (span : Span) : DeclarationId × DeclarationTable :=
  let id := storedNumber table.records.length
  (id, table.add id name kind owner span)

/-- Replaces what the record with a number stands for. -/
def refine (table : DeclarationTable) (id : DeclarationId) (kind : DeclarationKind) :
    DeclarationTable :=
  { table with
    records := table.records.modify id.number fun record => { record with kind } }

/-- The newest live record of a name. -/
def lookup (table : DeclarationTable) (name : String) : Option DeclarationRecord :=
  (table.indexed name).getLast?.bind table.get?

/-- Makes the pending records of `owner` visible and counts them. -/
def commit (table : DeclarationTable) (owner : TransactionId) : Nat × DeclarationTable :=
  ( table.records.countP (DeclarationRecord.awaitsCommit owner),
    { table with
      records := table.records.map fun record =>
        if record.awaitsCommit owner then { record with visibility := .visible }
        else record } )

/-- Forgets the live records of `owner` and counts them. -/
def forget (table : DeclarationTable) (owner : TransactionId) : Nat × DeclarationTable :=
  let forgotten := table.records.filter (DeclarationRecord.isLiveOf owner)
  ( forgotten.length,
    { records := table.records.map fun record =>
        if record.isLiveOf owner then { record with visibility := .forgotten }
        else record,
      index := forgotten.foldl
        (fun index record => indexRemove record.name record.id index) table.index } )

/-- The number of live records. -/
def liveCount (table : DeclarationTable) : Nat :=
  (table.index.flatMap Prod.snd).length

/-- The names that have a live record. -/
def liveNames (table : DeclarationTable) : List String := table.index.map Prod.fst

end DeclarationTable

end IncrementalC
