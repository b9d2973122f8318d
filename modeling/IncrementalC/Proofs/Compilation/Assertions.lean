import IncrementalC.Proofs.Compilation.Operation
import IncrementalC.Proofs.Compilation.Sound

/-!
Contract: what the compiler takes for granted while it answers a request.

The transaction of a request is handed from step to step, so that no step finds it gone. It
collects, and its number is larger than that of any logged one; what is left open still
collects. An analysis refines records only that it has declared itself, and those are
pending.

Owns: the assertions of a request, and that they hold however the compiler was used.

Does not own: the assertions of the engine.
-/

namespace IncrementalC

/-- What an analysis declares is pending in the end, so that it was when it was refined. -/
theorem Analysis.pending_of_declared {table : DeclarationTable} (wellFormed : table.WellFormed)
    (items : List Syntax.Item) (owner : TransactionId) {id : DeclarationId}
    (declared : id ∈ (analyze items table owner).declarations) :
    ∃ record, (analyze items table owner).table.get? id = some record ∧
      record.visibility = .pending := by
  have extension := analyze_extends items table owner
  obtain ⟨records, -, sameRecords, pending, declarations, -⟩ := extension.added
  rw [declarations] at declared
  obtain ⟨record, member, rfl⟩ := List.mem_map.mp declared
  have recorded : record ∈ (analyze items table owner).table.records :=
    sameRecords ▸ List.mem_append_right _ member
  exact ⟨record, (extension.wellFormed wellFormed).get?_id recorded, (pending record member).2⟩

namespace Compiler

/-- What the compiler asserts while it answers a request. -/
structure Asserts (compiler : Compiler) (log : TransactionLog) (request : CompileRequest) :
    Prop where
  /-- Text and declarations are added to a transaction that collects. -/
  collecting : (compiler.transactionFor log request).1.state = .collecting
  /-- All records that an analysis may refine are pending. -/
  refined : ∀ items, ∀ id ∈ (analyze items compiler.checker.table
      (compiler.transactionFor log request).1.id).declarations,
    ∃ record, (analyze items compiler.checker.table
      (compiler.transactionFor log request).1.id).table.get? id = some record ∧
        record.visibility = .pending
  /-- The transaction is newer than all that are logged. -/
  newest : ∀ entry ∈ log.entries,
    entry.id.number < (compiler.transactionFor log request).1.id.number
  /-- Nothing is refused on the way, and what is left open collects. -/
  answered : ∃ report after logged, compiler.compile log request = .ok (report, after, logged) ∧
    ∀ waiting ∈ after.opened, waiting.state = .collecting

variable {compiler : Compiler} {log : TransactionLog}

theorem Sound.asserts (sound : compiler.Sound log) (request : CompileRequest) :
    compiler.Asserts log request where
  collecting := by
    unfold transactionFor
    cases waits : compiler.opened with
    | none => rfl
    | some waiting => exact (sound.opened waiting waits).state
  refined items id declared :=
    Analysis.pending_of_declared sound.checker.table items _ declared
  newest := by
    intro entry member
    have allocated := sound.logged.allocated entry member
    unfold transactionFor
    cases waits : compiler.opened with
    | none => exact allocated
    | some waiting =>
      -- What waits was begun last, and it is not logged.
      have latest := sound.latest waiting waits
      have unlogged := TransactionLog.get?_eq_none_iff.mp (sound.opened waiting waits).unlogged
      have differs : entry.id.number ≠ waiting.id.number := fun same =>
        unlogged entry member (congrArg TransactionId.mk same)
      dsimp only
      omega
  answered := by
    obtain ⟨report, after, logged, answered, settles⟩ := sound.compile request
    exact ⟨report, after, logged, answered, fun waiting waits =>
      (settles.sound.opened waiting waits).state⟩

theorem Sound.perform (sound : compiler.Sound log) (operation : Operation) :
    ∃ answer after logged, compiler.perform log operation = .ok (answer, after, logged) ∧
      after.Sound logged := by
  cases operation with
  | compile request =>
    obtain ⟨report, after, logged, answered, settles⟩ := sound.compile request
    exact ⟨.compiled report, after, logged, perform_compile answered, settles.sound⟩
  | abandonOpen => exact ⟨_, _, _, rfl, sound.abandonOpen⟩
  | unload id => exact ⟨_, _, _, rfl, sound.unload id⟩
  | collect id => exact ⟨_, _, _, rfl, sound.collectUnit id⟩

/-- However a sound compiler is used, it answers, and stays sound. -/
theorem Sound.performAll (sound : compiler.Sound log) (operations : List Operation) :
    ∃ answers after logged, compiler.performAll log operations = .ok (answers, after, logged) ∧
      after.Sound logged :=
  performAll_keeps Sound.perform sound operations

end Compiler

end IncrementalC
