import IncrementalC.Proofs.Compilation.Reading

/-!
Contract: the table of declarations and the log agree.

A record is visible as long as its transaction is logged, and forgotten otherwise. A
logged transaction lists its records, in order.

Owns: what a settled transaction leaves in the table and in the log, and that every
request and every removal keeps the two in agreement.

Does not own: what the records say of functions.
-/

namespace IncrementalC

open DeclarationTable (shown hidden)

/-- The numbers of the records of a transaction. -/
def DeclarationTable.ownedIds (records : List DeclarationRecord) (owner : TransactionId) :
    List DeclarationId :=
  (records.filter fun record => record.owner = owner).map DeclarationRecord.id

/-- The records and the log tell the same of every transaction. -/
structure Accounted (records : List DeclarationRecord) (log : TransactionLog) : Prop where
  visibility : ∀ record ∈ records,
    record.visibility = if log.contains record.owner then .visible else .forgotten
  declared : ∀ transaction ∈ log.entries,
    transaction.declarations = DeclarationTable.ownedIds records transaction.id

theorem accounted_empty : Accounted [] .empty where
  visibility _ member := absurd member List.not_mem_nil
  declared _ member := absurd member List.not_mem_nil

/-! ## Records of one transaction -/

namespace DeclarationTable

variable {records others : List DeclarationRecord} {owner : TransactionId}

/-- The records of a transaction, in order. -/
def owned (records : List DeclarationRecord) (owner : TransactionId) : List DeclarationRecord :=
  records.filter fun record => record.owner = owner

theorem owned_append (records others : List DeclarationRecord) (owner : TransactionId) :
    owned (records ++ others) owner = owned records owner ++ owned others owner :=
  List.filter_append ..

theorem owned_eq_nil (foreign : ∀ record ∈ records, record.owner ≠ owner) :
    owned records owner = [] :=
  List.filter_eq_nil_iff.mpr fun record member own =>
    foreign record member (of_decide_eq_true own)

theorem owned_eq_self (own : ∀ record ∈ records, record.owner = owner) :
    owned records owner = records :=
  List.filter_eq_self.mpr fun record member => decide_eq_true (own record member)

theorem owned_map {change : DeclarationRecord → DeclarationRecord}
    (keepsOwner : ∀ record, (change record).owner = record.owner)
    (records : List DeclarationRecord) (owner : TransactionId) :
    owned (records.map change) owner = (owned records owner).map change := by
  unfold owned
  rw [List.filter_map]
  simp only [Function.comp_def, keepsOwner]

theorem ownedIds_eq (records : List DeclarationRecord) (owner : TransactionId) :
    ownedIds records owner = (owned records owner).map DeclarationRecord.id := rfl

theorem ownedIds_append (records others : List DeclarationRecord) (owner : TransactionId) :
    ownedIds (records ++ others) owner = ownedIds records owner ++ ownedIds others owner := by
  simp only [ownedIds_eq, owned_append, List.map_append]

theorem ownedIds_eq_nil (foreign : ∀ record ∈ records, record.owner ≠ owner) :
    ownedIds records owner = [] := by
  rw [ownedIds_eq, owned_eq_nil foreign, List.map_nil]

theorem ownedIds_of_owned (owned : ∀ record ∈ records, record.owner = owner) :
    ownedIds records owner = records.map DeclarationRecord.id := by
  rw [ownedIds_eq, owned_eq_self owned]

theorem ownedIds_map {change : DeclarationRecord → DeclarationRecord}
    (keepsId : ∀ record, (change record).id = record.id)
    (keepsOwner : ∀ record, (change record).owner = record.owner)
    (records : List DeclarationRecord) (owner : TransactionId) :
    ownedIds (records.map change) owner = ownedIds records owner := by
  rw [ownedIds_eq, owned_map keepsOwner, List.map_map]
  simp only [Function.comp_def, keepsId]
  rfl

end DeclarationTable

namespace Compiler

/-! ## What a settled transaction leaves -/

/-- The transaction leaves forgotten records and no code, and is not logged. -/
structure Undoes (checker : Checker) (log : TransactionLog) (transaction : Transaction)
    (after : Compiler) (logged : TransactionLog) : Prop where
  log : logged = log
  records : ∃ gap, after.checker.table.records = checker.table.records ++ gap ∧
    ∀ record ∈ gap, record.owner = transaction.id ∧ record.visibility = .forgotten
  units : after.checker.units = checker.units

/-- The items are analysed without an error, the records that this adds are visible, the code is
kept, and the transaction that lists the records is logged. -/
structure Logs (checker : Checker) (log : TransactionLog) (transaction : Transaction)
    (items : List Syntax.Item) (after : Compiler) (logged : TransactionLog) : Prop where
  errorless : (analyze items checker.table transaction.id).hasErrors = false
  records : after.checker.table.records =
    (analyze items checker.table transaction.id).table.records.map (shown transaction.id)
  units : after.checker.units =
    (transaction.id, (analyze items checker.table transaction.id).unit) :: checker.units
  log : ∃ diagnostics, logged = { log with
    entries := TransactionLog.place (transaction.committedWith
      (analyze items checker.table transaction.id).declarations diagnostics) log.entries }

/-- The code of a logged text is handed out next, and once. -/
theorem Logs.collectUnit {checker : Checker} {log : TransactionLog} {transaction : Transaction}
    {items : List Syntax.Item} {after : Compiler} {logged : TransactionLog}
    (logs : Logs checker log transaction items after logged) :
    after.checker.collectUnit transaction.id =
      ((analyze items checker.table transaction.id).unit,
        { after.checker with units := Checker.dropUnit transaction.id checker.units }) := by
  rw [Checker.collectUnit, logs.units, List.find?_cons_of_pos (by simp)]
  simp [Checker.dropUnit]

/-- A transaction that is rolled back leaves what its analysis added, forgotten. -/
theorem undoes_abandonedChecker {checker : Checker} (log : TransactionLog)
    {transaction : Transaction} {table : DeclarationTable} {added : List DeclarationRecord}
    (untouched : checker.Untouched transaction.id)
    (records : table.records = checker.table.records ++ added)
    (owned : ∀ record ∈ added, record.owner = transaction.id) :
    Undoes checker log transaction
      ⟨abandonedChecker { checker with table } transaction.id, none⟩ log where
  log := rfl
  records := by
    refine ⟨added.map (hidden transaction.id), ?_, ?_⟩
    · change (table.forget transaction.id).2.records = _
      rw [DeclarationTable.forget_records, records, List.map_append,
        forget_untouched untouched.records]
    · intro record member
      obtain ⟨original, originalMember, rfl⟩ := List.mem_map.mp member
      rw [DeclarationTable.owner_hidden]
      exact ⟨owned original originalMember,
        DeclarationTable.visibility_hidden (owned original originalMember)⟩
  units := dropUnit_untouched untouched.units

/-- A transaction is logged if it succeeds, and is undone or waits otherwise. -/
theorem settleReading_cases (checker : Checker) (log : TransactionLog) {transaction : Transaction}
    (untouched : checker.Untouched transaction.id)
    (reading : Except SourceError (List Syntax.Item)) :
    ((settleReading checker log transaction reading).1.verdict = .success ∧
        ∃ items, reading = .ok items ∧
          Logs checker log transaction items (settleReading checker log transaction reading).2.1
            (settleReading checker log transaction reading).2.2) ∨
      ((settleReading checker log transaction reading).1.verdict ≠ .success ∧
        Undoes checker log transaction (settleReading checker log transaction reading).2.1
          (settleReading checker log transaction reading).2.2) := by
  cases reading with
  | error error =>
    cases error with
    | incomplete =>
      refine .inr ⟨by simp [settleReading], rfl, ⟨[], (List.append_nil _).symm, ?_⟩, rfl⟩
      exact fun _ member => absurd member List.not_mem_nil
    | invalid diagnostic =>
      refine .inr ⟨by simp [settleReading],
        undoes_abandonedChecker log untouched (List.append_nil _).symm ?_⟩
      exact fun _ member => absurd member List.not_mem_nil
  | ok items =>
    obtain ⟨added, _, records, owned, -⟩ :=
      (Analysis.analyze_extends items checker.table transaction.id).added
    simp only [settleReading]
    split
    · refine .inr ⟨by simp, undoes_abandonedChecker log untouched records ?_⟩
      exact fun record member => (owned record member).1
    · next accepted =>
      have errorless : (analyze items checker.table transaction.id).hasErrors = false := by
        by_contra failed
        rw [Bool.not_eq_false] at failed
        exact accepted (by rw [failed, Bool.true_or])
      have units := congrArg
        ((transaction.id, (analyze items checker.table transaction.id).unit) :: ·)
        (dropUnit_untouched untouched.units)
      exact .inl ⟨rfl, items, rfl, errorless, rfl, units, _, rfl⟩

/-- A request goes to a transaction that has left nothing so far, and logs it with what its text
declares or undoes it. -/
theorem compile_cases {compiler after : Compiler} {log logged : TransactionLog}
    {request : CompileRequest} {report : CompileReport} (wellFormed : compiler.WellFormed log)
    (answered : compiler.compile log request = .ok (report, after, logged)) :
    ∃ begun allocated, compiler.transactionFor log request = (begun, allocated) ∧
      begun.Collecting compiler.checker allocated ∧
      compiler.checker.Settled allocated.nextNumber ∧ report.transaction = begun.id ∧
      ((report.verdict = .success ∧
          ∃ items, Syntax.parseProgram (begun.continuedBy request.text).source = .ok items ∧
            Logs compiler.checker allocated (begun.continuedBy request.text) items after logged) ∨
        (report.verdict ≠ .success ∧
          Undoes compiler.checker allocated (begun.continuedBy request.text) after logged)) := by
  obtain ⟨begun, allocated, chosen, collecting, settled, -, settles⟩ :=
    compile_eq_settleReading wellFormed request
  have leaves := settleReading_cases compiler.checker allocated
    (collecting.continuedBy request.text).untouched
    (Syntax.parseProgram (begun.continuedBy request.text).source)
  have own := report_settleReading compiler.checker allocated (begun.continuedBy request.text)
    (Syntax.parseProgram (begun.continuedBy request.text).source)
  have result := Except.ok.inj (answered.symm.trans settles)
  rw [← result] at leaves own
  exact ⟨begun, allocated, chosen, collecting, settled, own, leaves⟩

end Compiler

/-! ## Agreement is kept -/

namespace Accounted

variable {records : List DeclarationRecord} {checker : Checker} {log logged : TransactionLog}
  {transaction : Transaction} {after : Compiler}

/-- Only the entries of the log matter. -/
theorem of_entries (accounted : Accounted records log) (same : logged.entries = log.entries) :
    Accounted records logged where
  visibility record member := by
    have contained : logged.contains record.owner = log.contains record.owner := by
      simp only [TransactionLog.contains, TransactionLog.get?, same]
    rw [contained]
    exact accounted.visibility record member
  declared entry member := accounted.declared entry (same ▸ member)

theorem of_undoes (accounted : Accounted checker.table.records log)
    (unlogged : log.get? transaction.id = none)
    (undoes : Compiler.Undoes checker log transaction after logged) :
    Accounted after.checker.table.records logged := by
  obtain ⟨rfl, ⟨gap, records, forgotten⟩, -⟩ := undoes
  rw [records]
  constructor
  · intro record member
    rcases List.mem_append.mp member with old | new
    · exact accounted.visibility record old
    · obtain ⟨owned, hidden⟩ := forgotten record new
      simp [TransactionLog.contains, owned, unlogged, hidden]
  · intro entry member
    have foreign : ∀ record ∈ gap, record.owner ≠ entry.id := by
      intro record new same
      rw [(forgotten record new).1] at same
      exact TransactionLog.get?_eq_none_iff.mp unlogged entry member same.symm
    rw [DeclarationTable.ownedIds_append, DeclarationTable.ownedIds_eq_nil foreign, List.append_nil]
    exact accounted.declared entry member

theorem of_logs {items : List Syntax.Item} (accounted : Accounted checker.table.records log)
    (collecting : transaction.Collecting checker log)
    (logs : Compiler.Logs checker log transaction items after logged) :
    Accounted after.checker.table.records logged := by
  obtain ⟨added, _, extended, owned, listed, -⟩ :=
    (Analysis.analyze_extends items checker.table transaction.id).added
  obtain ⟨-, records, -, diagnostics, rfl⟩ := logs
  have untouched := collecting.untouched.records
  have kept := Compiler.commit_untouched untouched
  change (analyze items checker.table transaction.id).table.records =
    checker.table.records ++ added at extended
  rw [extended, List.map_append, kept] at records
  have own := fun record member => (owned record member).1
  have sameId : ∀ declarations, (transaction.committedWith declarations diagnostics).id =
      transaction.id := fun _ => rfl
  rw [records]
  constructor
  · intro record member
    rw [TransactionLog.contains_place, sameId]
    rcases List.mem_append.mp member with old | new
    · rw [decide_eq_false (untouched record old).symm, Bool.false_or]
      exact accounted.visibility record old
    · obtain ⟨original, originalMember, rfl⟩ := List.mem_map.mp new
      rw [DeclarationTable.owner_shown, decide_eq_true (own original originalMember).symm]
      exact DeclarationTable.visibility_shown (own original originalMember)
        (owned original originalMember).2
  · intro entry member
    rw [DeclarationTable.ownedIds_append,
      DeclarationTable.ownedIds_map (DeclarationTable.id_shown _) (DeclarationTable.owner_shown _)]
    rcases TransactionLog.mem_place member with rfl | old
    · rw [sameId, DeclarationTable.ownedIds_eq_nil untouched,
        DeclarationTable.ownedIds_of_owned own, ← List.nil_append (added.map _)]
      exact congrArg₂ (· ++ ·) collecting.declarations listed
    · have foreign : ∀ record ∈ added, record.owner ≠ entry.id := by
        intro record new same
        rw [own record new] at same
        exact TransactionLog.get?_eq_none_iff.mp collecting.unlogged entry old same.symm
      rw [DeclarationTable.ownedIds_eq_nil foreign, List.append_nil]
      exact accounted.declared entry old

/-- Forgetting the records of a transaction goes with erasing it. -/
theorem erase (accounted : Accounted records log) (id : TransactionId) :
    Accounted (records.map (hidden id)) (log.erase id) where
  visibility record member := by
    obtain ⟨original, originalMember, rfl⟩ := List.mem_map.mp member
    unfold TransactionLog.contains
    rw [DeclarationTable.owner_hidden, TransactionLog.get?_erase]
    by_cases own : original.owner = id
    · rw [if_pos own]
      exact DeclarationTable.visibility_hidden own
    · rw [if_neg own, DeclarationTable.hidden_of_owner_ne own]
      exact accounted.visibility original originalMember
  declared entry member := by
    rw [DeclarationTable.ownedIds_map (DeclarationTable.id_hidden id)
      (DeclarationTable.owner_hidden id)]
    exact accounted.declared entry (List.mem_filter.mp member).1

/-! ## What the table and the log say of each other -/

section

variable {table : DeclarationTable}

theorem isLive_eq (accounted : Accounted table.records log) {record : DeclarationRecord}
    (member : record ∈ table.records) : record.isLive = log.contains record.owner := by
  unfold DeclarationRecord.isLive
  rw [accounted.visibility record member]
  cases log.contains record.owner <;> rfl

theorem visible (accounted : Accounted table.records log) {record : DeclarationRecord}
    (member : record ∈ table.records) (live : record.isLive = true) :
    record.visibility = .visible := by
  rw [accounted.isLive_eq member] at live
  rw [accounted.visibility record member, if_pos live]

/-- A name has a live record exactly if a logged transaction lists a declaration of it. -/
theorem isSome_lookup_iff (accounted : Accounted table.records log)
    (wellFormed : table.WellFormed) (name : String) :
    (table.lookup name).isSome = true ↔
      ∃ transaction ∈ log.entries, ∃ declaration ∈ transaction.declarations,
        (table.get? declaration).map DeclarationRecord.name = some name := by
  constructor
  · intro found
    obtain ⟨record, newest⟩ := Option.isSome_iff_exists.mp found
    obtain ⟨member, named, live⟩ :=
      DeclarationTable.mem_liveNamed_iff.mp (wellFormed.mem_liveNamed_of_lookup newest)
    rw [accounted.isLive_eq member] at live
    obtain ⟨transaction, logged, own⟩ := TransactionLog.contains_iff.mp live
    refine ⟨transaction, logged, record.id, ?_, ?_⟩
    · rw [accounted.declared transaction logged]
      exact List.mem_map_of_mem (List.mem_filter.mpr ⟨member, decide_eq_true own.symm⟩)
    · rw [wellFormed.get?_id member, Option.map_some, named]
  · rintro ⟨transaction, logged, declaration, listed, named⟩
    rw [accounted.declared transaction logged] at listed
    obtain ⟨record, owned, rfl⟩ := List.mem_map.mp listed
    obtain ⟨member, own⟩ := List.mem_filter.mp owned
    rw [wellFormed.get?_id member] at named
    have live : record.isLive = true := by
      rw [accounted.isLive_eq member, TransactionLog.contains_iff]
      exact ⟨transaction, logged, (of_decide_eq_true own).symm⟩
    apply Option.isSome_iff_exists.mpr
    apply wellFormed.exists_lookup
    exact DeclarationTable.mem_liveNamed_iff.mpr ⟨member, Option.some.inj named, live⟩

end

end Accounted

end IncrementalC
