import IncrementalC.Proofs.Analysis.Definition
import IncrementalC.Proofs.Compilation.Accounting
import IncrementalC.Proofs.Engine.State
import IncrementalC.Proofs.Lowering.Frames

/-!
Contract: what the compiler and the log say of each other at any time.

Owns: sound compilers, what a request leaves, and that requests, abandoning, removing and
handing out code keep compilers sound.

Does not own: the code that was handed out.
-/

namespace IncrementalC

/-- The text of the transaction is a program that defines the function. -/
def Transaction.Defines (transaction : Transaction) (name : String) : Prop :=
  ∃ items, Syntax.parseProgram transaction.source = .ok items ∧ ∃ item ∈ items, item.Defines name

/-- If the transaction is logged, it defines the function. -/
def TransactionLog.Holds (log : TransactionLog) (id : TransactionId) (name : String) : Prop :=
  ∀ transaction, log.get? id = some transaction → transaction.Defines name

namespace TransactionLog

variable {log longer : TransactionLog}

theorem contains_of_entries (same : longer.entries = log.entries) (id : TransactionId) :
    longer.contains id = log.contains id := by
  simp only [contains, get?, same]

theorem holds_of_entries (same : longer.entries = log.entries) : longer.Holds = log.Holds := by
  funext id name
  simp only [Holds, get?, same]

end TransactionLog

/-- The code of an analysed text is well lowered. -/
theorem Analysis.wellLowered_analyze (items : List Syntax.Item) {table : DeclarationTable}
    (wellFormed : table.WellFormed) (owner : TransactionId) :
    (analyze items table owner).unit.WellLowered := by
  have extension := analyze_extends items table owner
  have ascending := (extension.wellFormed wellFormed).ascending
  obtain ⟨records, initializers, sameRecords, -, -, sameInitializers, sub⟩ := extension.added
  rw [sameRecords] at ascending
  have ofRecords : (records.map fun record => record.id.number).Pairwise (· < ·) :=
    List.pairwise_map.mpr (List.pairwise_append.mp ascending).2.1
  have declarations := sub.map DeclarationId.number
  refine ⟨?_, framed_analyze items table owner⟩
  change (List.map _ (analyze items table owner).unit.initializers).Pairwise (· < ·)
  rw [sameInitializers]
  simp only [List.map_map] at declarations
  exact ofRecords.sublist declarations

theorem Checker.collectUnit_wellLowered {checker : Checker}
    (lowered : ∀ entry ∈ checker.units, entry.2.WellLowered) (id : TransactionId) :
    (checker.collectUnit id).1.WellLowered ∧ ∀ entry ∈ (checker.collectUnit id).2.units,
      entry.2.WellLowered := by
  unfold collectUnit
  cases found : checker.units.find? fun entry => entry.1 = id with
  | none => exact ⟨CodeUnit.wellLowered_empty _, lowered⟩
  | some entry =>
    exact ⟨lowered entry (List.mem_of_find?_eq_some found),
      fun other member => lowered other (Compiler.mem_of_mem_dropUnit member)⟩

namespace Compiler

/-- The table agrees with the log, the bodies that it knows of are where it says, what waits
for more input was begun last, and all code is well lowered. -/
structure Sound (compiler : Compiler) (log : TransactionLog) : Prop
    extends compiler.WellFormed log where
  latest : ∀ waiting ∈ compiler.opened, waiting.id.number + 1 = log.nextNumber
  accounted : Accounted compiler.checker.table.records log
  attributed : Attributed compiler.checker.table.records log.Holds
  units : ∀ entry ∈ compiler.checker.units, entry.2.WellLowered

theorem sound_new : Sound .new .empty where
  toWellFormed := wellFormed_new
  latest := nofun
  accounted := accounted_empty
  attributed := attributed_nil _
  units _ member := absurd member List.not_mem_nil

variable {compiler after : Compiler} {checker : Checker} {log logged : TransactionLog}
  {transaction : Transaction}

/-! ## Requests -/

/-- The bodies in a logged text belong to its transaction. -/
theorem attributed_of_logs {items : List Syntax.Item} (settled : checker.Settled log.nextNumber)
    (newest : transaction.id.number + 1 = log.nextNumber)
    (collecting : transaction.Collecting checker log)
    (read : Syntax.parseProgram transaction.source = .ok items)
    (attributed : Attributed checker.table.records log.Holds)
    (logs : Logs checker log transaction items after logged) :
    Attributed after.checker.table.records logged.Holds := by
  obtain ⟨errorless, records, -, diagnostics, rfl⟩ := logs
  rw [records]
  apply Attributed.commit
  apply Attributed.analyze _ settled.table (newest ▸ settled.below) _ errorless
  · apply attributed.mono
    intro name record member id known holds entry found
    rw [TransactionLog.get?_place] at found
    refine holds entry ((if_neg ?_).symm.trans found)
    -- No older record can know of a body in a transaction that is not logged yet.
    rintro rfl
    have recorded := List.mem_of_mem_filter member
    have above := (attributed.origin name record member _ known).1
    have below := (settled.below record recorded).owner
    apply collecting.untouched.records record recorded
    rw [← newest] at below
    exact congrArg TransactionId.mk (Nat.le_antisymm (Nat.le_of_lt_succ below) above)
  · intro item member name defines entry found
    rw [TransactionLog.get?_place] at found
    obtain rfl := Option.some.inj ((if_pos rfl).symm.trans found)
    exact ⟨items, read, item, member, defines⟩

theorem attributed_of_undoes (attributed : Attributed checker.table.records log.Holds)
    (undoes : Undoes checker log transaction after logged) :
    Attributed after.checker.table.records logged.Holds := by
  obtain ⟨rfl, ⟨gap, records, forgotten⟩, -⟩ := undoes
  rw [records]
  apply attributed.append_forgotten
  intro record member
  simp [DeclarationRecord.isLive, (forgotten record member).2]

/-- The transaction of a request has a new number unless one waits for more input. -/
theorem transactionFor_id (compiler : Compiler) (log : TransactionLog) (request : CompileRequest) :
    (∃ transaction ∈ compiler.opened, (compiler.transactionFor log request).1.id = transaction.id) ∨
      (compiler.transactionFor log request).1.id.number = log.nextNumber := by
  unfold transactionFor
  cases compiler.opened with
  | some transaction => exact .inl ⟨transaction, rfl, rfl⟩
  | none => exact .inr rfl

theorem settleReading_keeps {checker : Checker} (settled : checker.table.WellFormed)
    (log : TransactionLog) (transaction : Transaction)
    (reading : Except SourceError (List Syntax.Item)) :
    (settleReading checker log transaction reading).2.2.nextNumber = log.nextNumber ∧
      (∀ waiting ∈ (settleReading checker log transaction reading).2.1.opened,
        waiting.id = transaction.id) ∧
      ∀ entry ∈ (settleReading checker log transaction reading).2.1.checker.units,
        entry ∈ checker.units ∨ entry.2.WellLowered := by
  cases reading with
  | error error =>
    cases error with
    | incomplete =>
      refine ⟨rfl, ?_, fun entry member => .inl member⟩
      intro waiting kept
      rw [← Option.some.inj kept]
    | invalid diagnostic =>
      refine ⟨rfl, ?_, ?_⟩
      · exact fun _ absent => by cases absent
      · exact fun entry member => .inl (mem_of_mem_dropUnit member)
  | ok items =>
    simp only [settleReading]
    split
    · refine ⟨rfl, ?_, ?_⟩
      · exact fun _ absent => by cases absent
      · exact fun entry member => .inl (mem_of_mem_dropUnit member)
    · refine ⟨rfl, ?_, ?_⟩
      · exact fun _ absent => by cases absent
      intro entry member
      rcases List.mem_cons.mp member with rfl | kept
      · exact .inr (Analysis.wellLowered_analyze items settled transaction.id)
      · exact .inl (mem_of_mem_dropUnit kept)

/-- What a request leaves: a sound compiler, a transaction with the newest number, which is
the only one to wait if one does, and the transaction logged if it succeeded. -/
structure Settles (compiler : Compiler) (log : TransactionLog) (report : CompileReport)
    (after : Compiler) (logged : TransactionLog) : Prop where
  sound : after.Sound logged
  begun : (∃ waiting ∈ compiler.opened, report.transaction = waiting.id) ∨
    report.transaction.number = log.nextNumber
  newest : report.transaction.number + 1 = logged.nextNumber
  opened : ∀ waiting ∈ after.opened, waiting.id = report.transaction
  contains : ∀ id, logged.contains id =
    ((decide (report.verdict = .success) && decide (report.transaction = id)) || log.contains id)

/-- The transaction of a request has the newest number. -/
theorem Sound.transactionFor_newest (sound : compiler.Sound log) (request : CompileRequest) :
    (compiler.transactionFor log request).1.id.number + 1 =
      (compiler.transactionFor log request).2.nextNumber := by
  have latest := sound.latest
  unfold transactionFor
  cases waits : compiler.opened with
  | some waiting => exact latest waiting waits
  | none => rfl

/-- Among logged transactions there is one more after a success, and else there are the same. -/
theorem contains_of_settleReading {report : CompileReport}
    {reading : Except SourceError (List Syntax.Item)} (untouched : checker.Untouched transaction.id)
    (result : settleReading checker log transaction reading = (report, after, logged))
    (id : TransactionId) :
    logged.contains id =
      ((decide (report.verdict = .success) && decide (transaction.id = id)) ||
        log.contains id) := by
  have leaves := settleReading_cases checker log untouched reading
  rw [result] at leaves
  rcases leaves with ⟨succeeded, items, -, -, -, -, diagnostics, rfl⟩ | ⟨failed, rfl, -⟩
  · rw [TransactionLog.contains_place, decide_eq_true succeeded]
    rfl
  · rw [decide_eq_false failed]
    rfl

/-- Settling what a text reads as keeps compilers sound. -/
theorem sound_of_settleReading {report : CompileReport} (sound : compiler.Sound log)
    (collecting : transaction.Collecting compiler.checker log)
    (newest : transaction.id.number + 1 = log.nextNumber)
    (result : settleReading compiler.checker log transaction
      (Syntax.parseProgram transaction.source) = (report, after, logged)) :
    after.Sound logged := by
  have kept := settleReading_keeps sound.checker.table log transaction
    (Syntax.parseProgram transaction.source)
  have stays := settleReading_wellFormed sound.checker sound.logged collecting
    (Syntax.parseProgram transaction.source)
  have leaves := settleReading_cases compiler.checker log collecting.untouched
    (Syntax.parseProgram transaction.source)
  rw [result] at kept stays leaves
  obtain ⟨sameNumber, opened, units⟩ := kept
  refine ⟨stays, ?_, ?_, ?_, ?_⟩
  · intro waiting waits
    rw [opened waiting waits, sameNumber]
    exact newest
  · rcases leaves with ⟨-, items, -, logs⟩ | ⟨-, undoes⟩
    · exact sound.accounted.of_logs collecting logs
    · exact sound.accounted.of_undoes collecting.unlogged undoes
  · rcases leaves with ⟨-, items, read, logs⟩ | ⟨-, undoes⟩
    · exact attributed_of_logs sound.checker newest collecting read sound.attributed logs
    · exact attributed_of_undoes sound.attributed undoes
  · exact fun entry member => (units entry member).elim (sound.units entry) id

/-- A request to a sound compiler is answered, and leaves it sound. -/
theorem Sound.compile (sound : compiler.Sound log) (request : CompileRequest) :
    ∃ report after logged, compiler.compile log request = .ok (report, after, logged) ∧
      Settles compiler log report after logged := by
  obtain ⟨transaction, allocated, chosen, collecting, settled, wellFormed, answered⟩ :=
    compile_eq_settleReading sound.toWellFormed request
  have begun := compiler.transactionFor_id log request
  have newest := sound.transactionFor_newest request
  have sameEntries := (compiler.transactionFor_log log request).1
  rw [chosen] at begun newest sameEntries
  -- The compiler is sound for the log with the new number once nothing waits.
  have prepared : Sound { compiler with opened := none } allocated :=
    { checker := settled
      logged := wellFormed
      opened := nofun
      latest := nofun
      accounted := sound.accounted.of_entries sameEntries
      attributed := by
        rw [TransactionLog.holds_of_entries sameEntries]
        exact sound.attributed
      units := sound.units }
  have collected := collecting.continuedBy request.text
  have sameId : (transaction.continuedBy request.text).id = transaction.id := rfl
  generalize transaction.continuedBy request.text = extended at answered collected sameId
  rw [← sameId] at begun newest
  obtain ⟨report, after, logged, result⟩ : ∃ report after logged,
      settleReading compiler.checker allocated extended (Syntax.parseProgram extended.source) =
        (report, after, logged) := ⟨_, _, _, rfl⟩
  have kept := settleReading_keeps settled.table allocated extended
    (Syntax.parseProgram extended.source)
  have own := report_settleReading compiler.checker allocated extended
    (Syntax.parseProgram extended.source)
  rw [result] at answered kept own
  obtain ⟨sameNumber, opened, -⟩ := kept
  refine ⟨report, after, logged, answered, sound_of_settleReading prepared collected newest result,
    ?_, ?_, ?_, ?_⟩
  · rw [own]
    exact begun
  · rw [own, sameNumber]
    exact newest
  · rw [own]
    exact opened
  · intro id
    rw [own, contains_of_settleReading collected.untouched result,
      TransactionLog.contains_of_entries sameEntries]

/-- The transaction of the request is logged behind all others, and its text is a program whose
declarations are visible. -/
structure LogsNewest (compiler : Compiler) (log : TransactionLog) (request : CompileRequest)
    (transaction : Transaction) (after : Compiler) (logged : TransactionLog) : Prop where
  begun : transaction.id = (compiler.transactionFor log request).1.id
  options : transaction.options = (compiler.transactionFor log request).1.options
  source : transaction.source =
    ((compiler.transactionFor log request).1.continuedBy request.text).source
  found : logged.get? transaction.id = some transaction
  entries : logged.entries = log.entries ++ [transaction]
  unlogged : log.get? transaction.id = none
  untouched : compiler.checker.Untouched transaction.id
  reads : ∃ items, Syntax.parseProgram transaction.source = .ok items ∧
    (analyze items compiler.checker.table transaction.id).hasErrors = false ∧
    after.checker.table.records =
      (analyze items compiler.checker.table transaction.id).table.records.map
        (DeclarationTable.shown transaction.id) ∧
    after.checker.units =
      (transaction.id, (analyze items compiler.checker.table transaction.id).unit) ::
        compiler.checker.units

/-- What a request logs stands behind all that was logged before. -/
theorem Sound.compile_appends (sound : compiler.Sound log) {request : CompileRequest}
    {report : CompileReport} {after : Compiler} {logged : TransactionLog}
    (answered : compiler.compile log request = .ok (report, after, logged)) :
    (report.verdict = .success → ∃ transaction, transaction.id = report.transaction ∧
        LogsNewest compiler log request transaction after logged) ∧
      (report.verdict ≠ .success → logged.entries = log.entries) := by
  obtain ⟨begun, allocated, chosen, collecting, -, own, leaves⟩ :=
    compile_cases sound.toWellFormed answered
  obtain ⟨sameEntries, more⟩ := compiler.transactionFor_log log request
  have newest := sound.transactionFor_newest request
  rw [chosen] at sameEntries more newest
  rcases leaves with ⟨accepted, items, read, logs⟩ | ⟨refused, undoes⟩
  · refine ⟨fun _ => ?_, fun refused => absurd accepted refused⟩
    obtain ⟨errorless, records, units, diagnostics, rfl⟩ := logs
    have placed : ∀ transaction : Transaction, transaction.id = begun.id →
        TransactionLog.place transaction allocated.entries = log.entries ++ [transaction] := by
      intro transaction same
      rw [TransactionLog.place_newest, sameEntries]
      intro earlier member
      have unlike := TransactionLog.get?_eq_none_iff.mp collecting.unlogged earlier member
      have below := sound.logged.allocated earlier (sameEntries ▸ member)
      have differs : earlier.id.number ≠ begun.id.number := fun same =>
        unlike (congrArg TransactionId.mk same)
      rw [same]
      dsimp only at newest more
      omega
    have unlogged : log.get? begun.id = none :=
      (congrArg (List.find? _) sameEntries.symm).trans collecting.unlogged
    refine ⟨_, ?_, ?_, ?_, ?_, ?_, placed _ rfl, unlogged, collecting.untouched, items, read,
      errorless, records, units⟩
    · exact own.symm
    · rw [chosen]
      rfl
    · rw [chosen]
      rfl
    · rw [chosen]
      rfl
    · rw [TransactionLog.get?_place]
      exact if_pos rfl
  · refine ⟨fun accepted => absurd accepted refused, fun _ => ?_⟩
    rw [undoes.log]
    exact sameEntries

/-! ## Removals -/

theorem Sound.abandonOpen (sound : compiler.Sound log) : compiler.abandonOpen.2.Sound log := by
  have wellFormed := wellFormed_abandonOpen sound.toWellFormed
  unfold Compiler.abandonOpen at wellFormed ⊢
  cases waits : compiler.opened with
  | none => exact sound
  | some waiting =>
    rw [waits] at wellFormed
    have accounted := sound.accounted
    rw [← forget_untouched (sound.opened waiting waits).untouched.records] at accounted
    exact
      { wellFormed with
        latest := nofun
        accounted
        attributed := sound.attributed.forget waiting.id
        units := fun entry member => sound.units entry (mem_of_mem_dropUnit member) }

theorem Sound.unload (sound : compiler.Sound log) (id : TransactionId) :
    (compiler.unload log id).2.1.Sound (compiler.unload log id).2.2 := by
  have wellFormed := wellFormed_unload sound.toWellFormed id
  unfold Compiler.unload at wellFormed ⊢
  cases found : log.get? id with
  | none => exact sound
  | some transaction =>
    rw [found] at wellFormed
    refine
      { wellFormed with
        latest := sound.latest
        accounted := sound.accounted.erase id
        attributed := ?_
        units := fun entry member => sound.units entry (mem_of_mem_dropUnit member) }
    refine (sound.attributed.forget id).mono ?_
    intro name record _ other _ holds entry entryFound
    rw [TransactionLog.get?_erase] at entryFound
    split at entryFound
    · cases entryFound
    · exact holds entry entryFound

/-- Afterwards the transaction is not logged, and all others are as before. -/
theorem contains_unload (compiler : Compiler) (log : TransactionLog) (id other : TransactionId) :
    (compiler.unload log id).2.2.contains other = (decide (other ≠ id) && log.contains other) := by
  unfold Compiler.unload TransactionLog.contains
  cases found : log.get? id with
  | none => by_cases same : other = id <;> simp [same, found]
  | some transaction =>
    rw [TransactionLog.get?_erase]
    by_cases same : other = id <;> simp [same]

theorem Sound.collectUnit (sound : compiler.Sound log) (id : TransactionId) :
    Sound { compiler with checker := (compiler.checker.collectUnit id).2 } log := by
  have wellFormed := wellFormed_collectUnit sound.toWellFormed id
  have sameTable : (compiler.checker.collectUnit id).2.table = compiler.checker.table := by
    unfold Checker.collectUnit
    split <;> rfl
  exact
    { wellFormed with
      latest := sound.latest
      accounted := sameTable ▸ sound.accounted
      attributed := sameTable ▸ sound.attributed
      units := (Checker.collectUnit_wellLowered sound.units id).2 }

end Compiler

end IncrementalC
