import IncrementalC.Proofs.Compilation.Sound

/-!
Contract: what is declared is what the logged texts declare.

A text is logged if it is a program without errors. Its transaction then has one record for each
item, of the name of the item, and they are visible as long as it is logged.

Owns: the names that a transaction declares, and that its records are of these names, whatever is
compiled, abandoned and removed.

Does not own: what is known of a name.
-/

namespace IncrementalC

open DeclarationTable (owned shown hidden)

/-- The text of the transaction is a program with an item of the name. -/
def Transaction.Declares (transaction : Transaction) (name : String) : Prop :=
  ∃ items, Syntax.parseProgram transaction.source = .ok items ∧ ∃ item ∈ items, item.name = name

/-- The text of a logged transaction is a program, and its records have the names of the items. -/
def TransactionLog.Names (log : TransactionLog) (records : List DeclarationRecord) : Prop :=
  ∀ transaction ∈ log.entries, ∃ items, Syntax.parseProgram transaction.source = .ok items ∧
    (owned records transaction.id).map DeclarationRecord.name = items.map Syntax.Item.name

namespace TransactionLog.Names

variable {log logged : TransactionLog} {records : List DeclarationRecord}
  {compiler after : Compiler} {request : CompileRequest}

theorem empty : TransactionLog.empty.Names records :=
  fun _ absent => absurd absent List.not_mem_nil

theorem subset (names : log.Names records) (less : logged.entries ⊆ log.entries) :
    logged.Names records :=
  fun transaction member => names transaction (less member)

theorem forget (names : log.Names records) (id : TransactionId) :
    log.Names (records.map (hidden id)) := by
  intro transaction member
  obtain ⟨items, reads, same⟩ := names transaction member
  refine ⟨items, reads, ?_⟩
  rw [DeclarationTable.owned_map (DeclarationTable.owner_hidden id), List.map_map, ← same]
  exact List.map_congr_left fun record _ => DeclarationTable.name_hidden id record

/-- Records of no logged transaction are of no account. -/
theorem append (names : log.Names records) {more : List DeclarationRecord} {id : TransactionId}
    (unlogged : log.get? id = none) (own : ∀ record ∈ more, record.owner = id) :
    log.Names (records ++ more) := by
  intro transaction member
  have foreign : ∀ record ∈ more, record.owner ≠ transaction.id := by
    intro record added same
    rw [own record added] at same
    exact TransactionLog.get?_eq_none_iff.mp unlogged transaction member same.symm
  rw [DeclarationTable.owned_append, DeclarationTable.owned_eq_nil foreign, List.append_nil]
  exact names transaction member

/-- What is logged has records of the names that its text declares. -/
theorem of_logsNewest {transaction : Transaction} (names : log.Names compiler.checker.table.records)
    (newest : compiler.LogsNewest log request transaction after logged) :
    logged.Names after.checker.table.records := by
  obtain ⟨items, reads, errorless, records, -⟩ := newest.reads
  obtain ⟨added, adds, named⟩ := Analysis.names_of_errorless items errorless
  obtain ⟨also, _, addsAlso, own, -⟩ :=
    (Analysis.analyze_extends items compiler.checker.table transaction.id).added
  obtain rfl : added = also := List.append_cancel_left (adds.symm.trans addsAlso)
  have own := fun record member => (own record member).1
  change (analyze items compiler.checker.table transaction.id).table.records =
    compiler.checker.table.records ++ added at adds
  have untouched := newest.untouched.records
  rw [records, adds, List.map_append, Compiler.commit_untouched untouched]
  have ownShown : ∀ record ∈ added.map (shown transaction.id), record.owner = transaction.id := by
    intro record member
    obtain ⟨original, originalMember, rfl⟩ := List.mem_map.mp member
    exact (DeclarationTable.owner_shown _ _).trans (own original originalMember)
  intro entry member
  rw [newest.entries, List.mem_append] at member
  rcases member with old | new
  · exact names.append newest.unlogged ownShown entry old
  · obtain rfl := List.mem_singleton.mp new
    refine ⟨items, reads, ?_⟩
    rw [DeclarationTable.owned_append, DeclarationTable.owned_eq_nil untouched,
      DeclarationTable.owned_eq_self ownShown, List.nil_append, List.map_map]
    refine Eq.trans ?_ named
    exact List.map_congr_left fun record _ => DeclarationTable.name_shown entry.id record

/-! ## What is done with a compiler -/

theorem compile (names : log.Names compiler.checker.table.records) (sound : compiler.Sound log)
    {report : CompileReport}
    (answered : compiler.compile log request = .ok (report, after, logged)) :
    logged.Names after.checker.table.records := by
  obtain ⟨begun, allocated, chosen, collecting, -, -, leaves⟩ :=
    Compiler.compile_cases sound.toWellFormed answered
  rcases leaves with ⟨accepted, -⟩ | ⟨-, undoes⟩
  · obtain ⟨transaction, -, newest⟩ := (sound.compile_appends answered).1 accepted
    exact names.of_logsNewest newest
  · have sameEntries := (compiler.transactionFor_log log request).1
    rw [chosen] at sameEntries
    obtain ⟨rfl, ⟨gap, records, forgotten⟩, -⟩ := undoes
    rw [records]
    refine append ?_ collecting.unlogged fun record member => (forgotten record member).1
    exact names.subset fun entry member => sameEntries ▸ member

theorem abandonOpen (names : log.Names compiler.checker.table.records) :
    log.Names compiler.abandonOpen.2.checker.table.records := by
  unfold Compiler.abandonOpen
  split
  · exact names
  · exact names.forget _

theorem unload (names : log.Names compiler.checker.table.records) (id : TransactionId) :
    (compiler.unload log id).2.2.Names (compiler.unload log id).2.1.checker.table.records := by
  unfold Compiler.unload
  split
  · exact names
  · exact (names.forget id).subset (List.filter_subset_self _)

end TransactionLog.Names

/-- A name is declared exactly if the text of a logged transaction declares it. -/
theorem Compiler.Sound.isDeclared_iff {compiler : Compiler} {log : TransactionLog}
    (sound : compiler.Sound log) (names : log.Names compiler.checker.table.records)
    (name : String) :
    compiler.isDeclared name = true ↔ ∃ transaction ∈ log.entries, transaction.Declares name := by
  have table := sound.checker.table
  rw [isDeclared, Checker.lookup, Option.isSome_map, sound.accounted.isSome_lookup_iff table]
  refine exists_congr fun transaction => and_congr_right fun logged => ?_
  obtain ⟨items, reads, same⟩ := names transaction logged
  rw [sound.accounted.declared transaction logged]
  constructor
  · rintro ⟨declaration, listed, named⟩
    obtain ⟨record, own, rfl⟩ := List.mem_map.mp listed
    rw [table.get?_id (List.mem_filter.mp own).1] at named
    have member : record.name ∈ items.map Syntax.Item.name := same ▸ List.mem_map_of_mem own
    obtain ⟨item, among, called⟩ := List.mem_map.mp member
    exact ⟨items, reads, item, among, called.trans (Option.some.inj named)⟩
  · rintro ⟨_, readsAgain, item, among, rfl⟩
    cases reads.symm.trans readsAgain
    have member : item.name ∈ (owned _ _).map DeclarationRecord.name :=
      same.symm ▸ List.mem_map_of_mem among
    obtain ⟨record, own, named⟩ := List.mem_map.mp member
    refine ⟨record.id, List.mem_map_of_mem own, ?_⟩
    rw [table.get?_id (List.mem_filter.mp own).1, Option.map_some, named]

end IncrementalC
