import Mathlib.Logic.Relation
import IncrementalC.Proofs.Declaration.Index

/-!
Contract: what a declaration table says after any requests.

A table holds the same facts twice, as records and as an index of their names, and every
request updates the two in different ways. They agree in the end, whatever was requested
for whom, as long as there is a number for each record. And each record is what it was when it
was added, but for what it stands for and for who can see it.

Numbers are stored in 32 bits. The record after the last number gets the first one again, and is
then never found.

Owns: the requests of a table and the tables they lead to, how far a record changes, the
agreement of records and index, and how long it lasts.

Does not own: which requests an analysis makes, or that it refines pending records only.
-/

namespace IncrementalC

/-- How the visibility of a record changes when it does. -/
inductive Visibility.Moves : Visibility → Visibility → Prop where
  | commit : Moves .pending .visible
  | rollBack : Moves .pending .forgotten
  | unload : Moves .visible .forgotten

/-- A record in the course of requests: it keeps its number, name, owner and place in the
text, and its visibility changes as `changes` says. -/
structure DeclarationRecord.Becomes (changes : Visibility → Visibility → Prop)
    (before after : DeclarationRecord) : Prop where
  id : after.id = before.id
  name : after.name = before.name
  owner : after.owner = before.owner
  span : after.span = before.span
  visibility : changes before.visibility after.visibility

namespace DeclarationTable

/-! ## Requests -/

/-- What can be asked of a table. -/
inductive Request where
  | declare (name : String) (kind : DeclarationKind) (owner : TransactionId) (span : Span)
  | refine (id : DeclarationId) (kind : DeclarationKind)
  | commit (owner : TransactionId)
  | forget (owner : TransactionId)
deriving DecidableEq, Repr

/-- The table when a request is served. -/
def serve (table : DeclarationTable) : Request → DeclarationTable
  | .declare name kind owner span => (table.declareStored name kind owner span).2
  | .refine id kind => table.refine id kind
  | .commit owner => (table.commit owner).2
  | .forget owner => (table.forget owner).2

/-- The table after requests in order, beginning without records. -/
def served (requests : List Request) : DeclarationTable := requests.foldl serve .empty

/-- How many records a request adds. -/
def Request.added : Request → Nat
  | .declare .. => 1
  | .refine .. | .commit _ | .forget _ => 0

/-- How many records requests add. -/
def added : List Request → Nat
  | [] => 0
  | request :: later => request.added + added later

theorem added_replicate (count : Nat) (request : Request) :
    added (List.replicate count request) = count * request.added := by
  induction count with
  | zero => exact (Nat.zero_mul _).symm
  | succ count inductionHypothesis =>
    rw [List.replicate_succ, added, inductionHypothesis, Nat.add_comm, Nat.succ_mul]

theorem length_serve (table : DeclarationTable) (request : Request) :
    (table.serve request).records.length = table.records.length + request.added := by
  cases request with
  | declare name kind owner span => exact List.length_append
  | refine id kind => exact List.length_modify ..
  | commit owner => exact List.length_map ..
  | forget owner => exact List.length_map ..

theorem length_serveAll (table : DeclarationTable) (requests : List Request) :
    (requests.foldl serve table).records.length = table.records.length + added requests := by
  induction requests generalizing table with
  | nil => rfl
  | cons request later inductionHypothesis =>
    rw [List.foldl_cons, inductionHypothesis, length_serve, added, Nat.add_assoc]

/-- A number that is left is stored as it is. -/
theorem declareStored_eq {table : DeclarationTable} (left : table.records.length < numberCount)
    (name : String) (kind : DeclarationKind) (owner : TransactionId) (span : Span) :
    table.declareStored name kind owner span = table.declare name kind owner span := by
  rw [declareStored, declare, storedNumber, Nat.mod_eq_of_lt left]

theorem WellFormed.serve {table : DeclarationTable} (wellFormed : table.WellFormed) :
    ∀ request : Request, table.records.length + request.added ≤ numberCount →
      (table.serve request).WellFormed
  | .declare name kind owner span, left => by
    rw [DeclarationTable.serve, declareStored_eq left]
    exact wellFormed.declare name kind owner span
  | .refine id kind, _ => wellFormed.refine id kind
  | .commit owner, _ => wellFormed.commit owner
  | .forget owner, _ => wellFormed.forget owner

theorem WellFormed.serveAll {table : DeclarationTable} (wellFormed : table.WellFormed)
    (requests : List Request) (left : table.records.length + added requests ≤ numberCount) :
    (requests.foldl DeclarationTable.serve table).WellFormed := by
  induction requests generalizing table with
  | nil => exact wellFormed
  | cons request later inductionHypothesis =>
    rw [added, ← Nat.add_assoc, ← length_serve] at left
    refine inductionHypothesis (wellFormed.serve request ?_) left
    rw [← length_serve]
    exact Nat.le_of_add_right_le left

/-! ## Records and index -/

/-- The records and the index say the same. -/
structure Agrees (table : DeclarationTable) : Prop where
  numbered : ∀ (position : Nat) record, table.records[position]? = some record →
    record.id = ⟨position⟩
  /-- A name has an entry exactly if it has live records, and the entry lists them all. -/
  listed : ∀ name ids, (name, ids) ∈ table.index ↔
    ids ≠ [] ∧ ids = (liveNamed table.records name).map DeclarationRecord.id
  once : (table.index.map Prod.fst).Nodup
  ascending : ∀ entry ∈ table.index, (entry.2.map DeclarationId.number).Pairwise (· < ·)
  /-- A look-up yields the live record with the largest number. -/
  found : ∀ name record, table.lookup name = some record ↔
    record ∈ liveNamed table.records name ∧
      ∀ other ∈ liveNamed table.records name, other.id.number ≤ record.id.number
  missing : ∀ name, table.lookup name = none ↔ liveNamed table.records name = []
  counted : table.liveCount = table.records.countP DeclarationRecord.isLive

namespace WellFormed

variable {table : DeclarationTable}

theorem mem_index_iff (wellFormed : table.WellFormed) (name : String) (ids : List DeclarationId) :
    (name, ids) ∈ table.index ↔
      ids ≠ [] ∧ ids = (liveNamed table.records name).map DeclarationRecord.id := by
  rw [← wellFormed.listed_eq]
  constructor
  · intro member
    exact ⟨wellFormed.nonempty _ member, (listed_of_mem wellFormed.namesDistinct member).symm⟩
  · rintro ⟨nonempty, rfl⟩
    -- What is listed under a name comes from an entry, unless nothing is listed.
    unfold listed at nonempty ⊢
    cases entry : table.index.find? fun entry => entry.1 = name with
    | none => exact absurd (by rw [entry]) nonempty
    | some found =>
      have named : found.1 = name := by simpa using List.find?_some entry
      subst named
      exact List.mem_of_find?_eq_some entry

theorem lookup_eq_some_iff (wellFormed : table.WellFormed) (name : String)
    (record : DeclarationRecord) :
    table.lookup name = some record ↔
      record ∈ liveNamed table.records name ∧
        ∀ other ∈ liveNamed table.records name, other.id.number ≤ record.id.number := by
  constructor
  · intro found
    refine ⟨wellFormed.mem_liveNamed_of_lookup found, fun other member => ?_⟩
    rcases wellFormed.eq_or_lt_of_lookup member found with rfl | older
    · exact Nat.le_refl _
    · exact Nat.le_of_lt older
  · rintro ⟨member, newest⟩
    obtain ⟨latest, found⟩ := wellFormed.exists_lookup member
    rcases wellFormed.eq_or_lt_of_lookup member found with rfl | older
    · exact found
    · have notOlder := newest latest (wellFormed.mem_liveNamed_of_lookup found)
      exact absurd older (Nat.not_lt_of_le notOlder)

theorem agrees (wellFormed : table.WellFormed) : table.Agrees where
  numbered _ _ := wellFormed.id_of_getElem?
  listed := wellFormed.mem_index_iff
  once := wellFormed.namesDistinct
  ascending entry member := by
    rw [((wellFormed.mem_index_iff entry.1 entry.2).mp member).2, List.map_map]
    exact List.pairwise_map.mpr (wellFormed.ascending_liveNamed entry.1)
  found := wellFormed.lookup_eq_some_iff
  missing name := by rw [wellFormed.lookup_eq, List.getLast?_eq_none_iff]
  counted := wellFormed.liveCount_eq

end WellFormed

/-! ## Records in the course of requests -/

/-- Every record is still in its place, as what `relates` makes of it. -/
def Carries (relates : DeclarationRecord → DeclarationRecord → Prop)
    (before after : DeclarationTable) : Prop :=
  ∀ (position : Nat) record, before.records[position]? = some record →
    ∃ later, after.records[position]? = some later ∧ relates record later

/-- A visibility that stays or makes one move. -/
abbrev MovesOnce : Visibility → Visibility → Prop := Relation.ReflGen Visibility.Moves

/-- A visibility that makes any number of moves. -/
abbrev MovesOn : Visibility → Visibility → Prop := Relation.ReflTransGen Visibility.Moves

theorem becomes_self (record : DeclarationRecord) : record.Becomes MovesOnce record :=
  ⟨rfl, rfl, rfl, rfl, .refl⟩

theorem becomes_withKind (kind : DeclarationKind) (record : DeclarationRecord) :
    record.Becomes MovesOnce (withKind kind record) :=
  ⟨rfl, rfl, rfl, rfl, .refl⟩

theorem becomes_shown (owner : TransactionId) (record : DeclarationRecord) :
    record.Becomes MovesOnce (shown owner record) := by
  unfold shown
  split
  · next pending =>
    simp only [DeclarationRecord.awaitsCommit, decide_eq_true_eq] at pending
    exact ⟨rfl, rfl, rfl, rfl, .single (pending.2 ▸ .commit)⟩
  · exact becomes_self record

theorem becomes_hidden (owner : TransactionId) (record : DeclarationRecord) :
    record.Becomes MovesOnce (hidden owner record) := by
  unfold hidden
  split
  · next live =>
    refine ⟨rfl, rfl, rfl, rfl, .single ?_⟩
    simp only [DeclarationRecord.isLiveOf, DeclarationRecord.isLive, decide_eq_true_eq] at live
    cases visibility : record.visibility with
    | pending => exact .rollBack
    | visible => exact .unload
    | forgotten => exact absurd visibility live.2
  · exact becomes_self record

theorem carries_of_map {relates : DeclarationRecord → DeclarationRecord → Prop}
    {change : DeclarationRecord → DeclarationRecord} {before after : DeclarationTable}
    (changed : after.records = before.records.map change)
    (related : ∀ record, relates record (change record)) : before.Carries relates after := by
  intro position record found
  exact ⟨change record, by rw [changed, List.getElem?_map, found, Option.map_some], related record⟩

/-- One request makes one move of the visibility of a record at most. -/
theorem carries_serve (table : DeclarationTable) :
    ∀ request, table.Carries (DeclarationRecord.Becomes MovesOnce) (table.serve request)
  | .declare name kind owner span => fun position record found =>
    ⟨record, List.getElem?_append_left (List.getElem?_eq_some_iff.mp found).1 ▸ found,
      becomes_self record⟩
  | .refine id kind => fun position record found => by
    rw [serve, refine_records, List.getElem?_modify, found, Option.map_eq_map, Option.map_some]
    refine ⟨_, rfl, ?_⟩
    split
    · exact becomes_withKind kind record
    · exact becomes_self record
  | .commit owner => carries_of_map (commit_records table owner) (becomes_shown owner)
  | .forget owner => carries_of_map (forget_records table owner) (becomes_hidden owner)

/-- What any requests make of a record: each of them makes one move at most. -/
theorem carries_serveAll (table : DeclarationTable) (requests : List Request) :
    table.Carries (DeclarationRecord.Becomes MovesOn) (requests.foldl serve table) := by
  induction requests generalizing table with
  | nil => exact fun position record found => ⟨record, found, rfl, rfl, rfl, rfl, .refl⟩
  | cons request later inductionHypothesis =>
    intro position record found
    obtain ⟨between, foundThen, step⟩ := carries_serve table request position record found
    obtain ⟨last, foundLast, rest⟩ := inductionHypothesis _ position between foundThen
    exact ⟨last, foundLast, rest.id.trans step.id, rest.name.trans step.name,
      rest.owner.trans step.owner, rest.span.trans step.span,
      step.visibility.to_reflTransGen.trans rest.visibility⟩

/-- A record that a request adds has the number of its place and is pending. -/
theorem added_by_serve {table : DeclarationTable} {request : Request} {position : Nat}
    {record : DeclarationRecord} (absent : table.records[position]? = none)
    (found : (table.serve request).records[position]? = some record) :
    record.id = storedNumber position ∧ record.visibility = .pending := by
  have outside := List.getElem?_eq_none_iff.mp absent
  cases request with
  | declare name kind owner span =>
    have inside := (List.getElem?_eq_some_iff.mp found).1
    rw [length_serve] at inside
    obtain rfl : position = table.records.length := Nat.le_antisymm (Nat.le_of_lt_succ inside) outside
    rw [serve, declareStored, add, List.getElem?_concat_length] at found
    cases found
    exact ⟨rfl, rfl⟩
  | refine id kind =>
    rw [serve, refine_records, List.getElem?_modify, absent] at found
    cases found
  | commit owner =>
    rw [serve, commit_records, List.getElem?_map, absent] at found
    cases found
  | forget owner =>
    rw [serve, forget_records, List.getElem?_map, absent] at found
    cases found

/-- Every record has the number of its place, as it is stored. -/
def Numbered (table : DeclarationTable) : Prop :=
  ∀ (position : Nat) record, table.records[position]? = some record →
    record.id = storedNumber position

theorem Numbered.serve {table : DeclarationTable} (numbered : table.Numbered) (request : Request) :
    (table.serve request).Numbered := by
  intro position record found
  cases before : table.records[position]? with
  | none => exact (added_by_serve before found).1
  | some old =>
    obtain ⟨later, foundLater, becomes⟩ := carries_serve table request position old before
    obtain rfl := Option.some.inj (found.symm.trans foundLater)
    exact becomes.id.trans (numbered position old before)

theorem Numbered.serveAll {table : DeclarationTable} (numbered : table.Numbered)
    (requests : List Request) : (requests.foldl DeclarationTable.serve table).Numbered := by
  induction requests generalizing table with
  | nil => exact numbered
  | cons request later inductionHypothesis => exact inductionHypothesis (numbered.serve request)

theorem numbered_served (requests : List Request) : (served requests).Numbered :=
  Numbered.serveAll (fun _ _ absent => by cases absent) requests

theorem length_served (requests : List Request) :
    (served requests).records.length = added requests :=
  (length_serveAll .empty requests).trans (Nat.zero_add _)

/-- Nothing of an owner waits any more once it is committed. -/
theorem visibility_shown_ne {owner : TransactionId} {record : DeclarationRecord}
    (own : record.owner = owner) : (shown owner record).visibility ≠ .pending := by
  by_cases pending : record.visibility = .pending
  · rw [visibility_shown own pending]
    decide
  · simp [shown, DeclarationRecord.awaitsCommit, pending]

/-! ## The agreement -/

/-- Beyond the last number, a place and its number differ. -/
theorem length_le_of_agrees {table : DeclarationTable} (numbered : table.Numbered)
    (agrees : table.Agrees) : table.records.length ≤ numberCount := by
  by_contra more
  have inside : numberCount < table.records.length := Nat.lt_of_not_le more
  have found : table.records[numberCount]? = some table.records[numberCount] :=
    List.getElem?_eq_getElem inside
  have same := (numbered _ _ found).symm.trans (agrees.numbered _ _ found)
  rw [storedNumber, Nat.mod_self] at same
  exact absurd (congrArg DeclarationId.number same) (by decide)

/-- After any requests for any owners that add no more records than there are numbers, the index
lists for each name the live records of that name in the order of their numbers, so that a look-up
yields the last of them and the count is that of all live records. After more records it no longer
does. In any case records keep their place, number, name and owner. They are pending at first, and
then become visible and are forgotten, or are forgotten right away. Committing and forgetting an
owner leaves the records of all others as they are. -/
theorem index_agrees_with_records_while_numbers_last (requests : List Request) :
    (served requests).records.length = added requests ∧
      ((served requests).Agrees ↔ added requests ≤ numberCount) ∧
      (added requests < numberCount → ∀ name kind owner span,
        (served requests).declareStored name kind owner span =
          (served requests).declare name kind owner span) ∧
      (served requests).Numbered ∧
      (∀ later, (served requests).Carries (DeclarationRecord.Becomes MovesOn)
        (served (requests ++ later))) ∧
      (∀ request,
        (served requests).Carries (DeclarationRecord.Becomes MovesOnce)
            (served (requests ++ [request])) ∧
          ∀ (position : Nat) record, (served requests).records[position]? = none →
            (served (requests ++ [request])).records[position]? = some record →
              record.visibility = .pending) ∧
      ∀ owner,
        (served requests).Carries
            (fun record later => (record.owner ≠ owner → later = record) ∧
              (record.owner = owner → later.visibility ≠ .pending))
            (served (requests ++ [.commit owner])) ∧
          (served requests).Carries
            (fun record later => (record.owner ≠ owner → later = record) ∧
              (record.owner = owner → later.visibility = .forgotten))
            (served (requests ++ [.forget owner])) := by
  have length := length_served requests
  have further : ∀ later, served (requests ++ later) = later.foldl serve (served requests) :=
    fun later => List.foldl_append
  refine ⟨length, ⟨fun agrees => ?_, fun left => ?_⟩, fun left => declareStored_eq (length ▸ left),
    numbered_served requests, fun later => ?_, fun request => ⟨?_, ?_⟩, fun owner => ⟨?_, ?_⟩⟩
  · exact length ▸ length_le_of_agrees (numbered_served requests) agrees
  · exact (wellFormed_empty.serveAll requests (Nat.zero_add _ ▸ left)).agrees
  · rw [further]
    exact carries_serveAll _ later
  · rw [further]
    exact carries_serve _ request
  · rw [further]
    exact fun position record absent found => (added_by_serve absent found).2
  · rw [further]
    exact carries_of_map (commit_records _ owner) fun record =>
      ⟨shown_of_owner_ne, visibility_shown_ne⟩
  · rw [further]
    exact carries_of_map (forget_records _ owner) fun record =>
      ⟨hidden_of_owner_ne, visibility_hidden⟩

/-- The first record keeps its place and its name. -/
theorem first_record_served (name : String) (kind : DeclarationKind) (owner : TransactionId)
    (span : Span) (later : List Request) :
    ∃ record, (served (.declare name kind owner span :: later)).records[0]? = some record ∧
      record.name = name := by
  obtain ⟨record, found, becomes⟩ :=
    carries_serveAll (served [.declare name kind owner span]) later 0 _ rfl
  exact ⟨record, found, becomes.name⟩

/-- Once all numbers are given out, a name that is declared leads to the very first record. -/
theorem lookup_after_last_number {requests : List Request} (full : added requests = numberCount)
    (name : String) (kind : DeclarationKind) (owner : TransactionId) (span : Span) :
    (served (requests ++ [.declare name kind owner span])).lookup name =
      (served (requests ++ [.declare name kind owner span])).records[0]? := by
  have reached : served (requests ++ [.declare name kind owner span]) =
      (served requests).add (storedNumber (served requests).records.length) name kind owner span :=
    List.foldl_append
  rw [reached, length_served, full, storedNumber, Nat.mod_self]
  simp only [lookup, indexed_eq_listed, add, listed_indexInsert, if_true, List.getLast?_concat,
    Option.bind_some, get?]

/-- So a look-up yields the record of another name. -/
theorem not_found_after_last_number {first name : String} (different : first ≠ name)
    {kind : DeclarationKind} {owner : TransactionId} {span : Span} {others : List Request}
    (full : added (.declare first kind owner span :: others) = numberCount) :
    (∃ record, (served (.declare first kind owner span :: others ++
        [.declare name kind owner span])).lookup name = some record ∧ record.name = first) ∧
      ¬ (served (.declare first kind owner span :: others ++
        [.declare name kind owner span])).Agrees := by
  obtain ⟨record, found, named⟩ :=
    first_record_served first kind owner span (others ++ [.declare name kind owner span])
  have leads := (lookup_after_last_number full name kind owner span).trans found
  refine ⟨⟨record, leads, named⟩, fun agrees => ?_⟩
  obtain ⟨member, -⟩ := (agrees.found name record).mp leads
  exact different (named.symm.trans (mem_liveNamed_iff.mp member).2.1)

/-- Requests that give out all numbers. -/
def exhausting : List Request :=
  .declare "first" .variable ⟨0⟩ .nowhere ::
    List.replicate (numberCount - 1) (.declare "other" .variable ⟨0⟩ .nowhere)

theorem added_exhausting : added exhausting = numberCount := by
  have one : 1 ≤ numberCount := by decide
  rw [exhausting, added, added_replicate, Request.added, Request.added, Nat.mul_one]
  exact Nat.add_sub_cancel' one

/-- The name that is declared after the last number is not found. -/
theorem the_name_after_the_last_number_is_not_found :
    (∃ record,
      (served (exhausting ++ [.declare "last" .variable ⟨0⟩ .nowhere])).lookup "last" =
        some record ∧ record.name = "first") ∧
      ¬ (served (exhausting ++ [.declare "last" .variable ⟨0⟩ .nowhere])).Agrees := by
  have different : "first" ≠ "last" := by decide
  exact not_found_after_last_number different added_exhausting

/-- The older declaration of a name is found again once the newer one is forgotten. -/
example :
    ((served [.declare "f" .variable ⟨0⟩ .nowhere, .commit ⟨0⟩,
        .declare "f" .variable ⟨1⟩ .nowhere, .forget ⟨1⟩]).lookup "f").map
      DeclarationRecord.id = some ⟨0⟩ := by
  decide

end DeclarationTable

end IncrementalC
