import IncrementalC.Proofs.Analysis.Renumbering
import IncrementalC.Proofs.Compilation.Operation

/-!
Contract: two compilers that differ by numbers answer alike.

One compiler gave out numbers that the other one did not. Whatever they are asked from
then on, they answer alike, by numbers that differ by those.

Owns: renumbered transactions, requests and answers, and the simulation between the two
compilers.

Does not own: why analysis does not see the numbers.
-/

namespace IncrementalC

/-! ## Renumbered transactions and requests -/

namespace Renumbering

variable (renumbering : Renumbering)

/-- A transaction by the new numbers. One that was there before keeps what it holds. -/
def entry (transaction : Transaction) : Transaction :=
  if transaction.id.number < renumbering.firstTransaction then transaction
  else
    { transaction with
      id := renumbering.transaction transaction.id,
      declarations := transaction.declarations.map renumbering.declaration,
      origin := transaction.origin.map renumbering.declaration }

/-- The code of a transaction by the new numbers. -/
def keyedCode (code : TransactionId × CodeUnit) : TransactionId × CodeUnit :=
  if code.1.number < renumbering.firstTransaction then code
  else (renumbering.transaction code.1, renumbering.code code.2)

/-- A request by the new numbers. -/
def request (request : CompileRequest) : CompileRequest :=
  { request with origin := request.origin.map renumbering.declaration }

/-- A report by the new numbers. -/
def report (report : CompileReport) : CompileReport :=
  { report with transaction := renumbering.transaction report.transaction }

/-- What is known of a function by the new numbers. -/
def functionInfo (info : FunctionInfo) : FunctionInfo :=
  { info with
    declaration := renumbering.declaration info.declaration,
    definition := info.definition.map renumbering.transaction }

/-- The same wish by the new numbers. -/
def operation : Compiler.Operation → Compiler.Operation
  | .compile request => .compile (renumbering.request request)
  | .abandonOpen => .abandonOpen
  | .unload id => .unload (renumbering.transaction id)
  | .collect id => .collect (renumbering.transaction id)

/-- The same answer by the new numbers. -/
def answer : Compiler.Answer → Compiler.Answer
  | .compiled report => .compiled (renumbering.report report)
  | .abandoned id => .abandoned (id.map renumbering.transaction)
  | .unloaded transaction => .unloaded (transaction.map renumbering.entry)
  | .collected code => .collected (renumbering.keyedCode code)

variable {renumbering}

@[simp] theorem id_entry (transaction : Transaction) :
    (renumbering.entry transaction).id = renumbering.transaction transaction.id := by
  unfold entry
  split
  · rename_i before
    exact (transaction_of_lt before).symm
  · rfl

@[simp] theorem key_keyedCode (code : TransactionId × CodeUnit) :
    (renumbering.keyedCode code).1 = renumbering.transaction code.1 := by
  unfold keyedCode
  split
  · rename_i before
    exact (transaction_of_lt before).symm
  · rfl

theorem entry_of_lt (transaction : Transaction)
    (before : transaction.id.number < renumbering.firstTransaction) :
    renumbering.entry transaction = transaction := if_pos before

theorem entry_of_le (transaction : Transaction)
    (after : renumbering.firstTransaction ≤ transaction.id.number) :
    renumbering.entry transaction =
      { transaction with
        id := renumbering.transaction transaction.id,
        declarations := transaction.declarations.map renumbering.declaration,
        origin := transaction.origin.map renumbering.declaration } :=
  if_neg (Nat.not_lt.mpr after)

theorem keyedCode_of_lt {id : TransactionId} (before : id.number < renumbering.firstTransaction)
    (unit : CodeUnit) : renumbering.keyedCode (id, unit) = (id, unit) := if_pos before

theorem keyedCode_of_le {id : TransactionId} (after : renumbering.firstTransaction ≤ id.number)
    (unit : CodeUnit) :
    renumbering.keyedCode (id, unit) = (renumbering.transaction id, renumbering.code unit) :=
  if_neg (Nat.not_lt.mpr after)

end Renumbering

/-! ## Matching states -/

/-- The logs agree up to the numbers. -/
structure TransactionLog.Matches (renumbering : Renumbering) (left right : TransactionLog) :
    Prop where
  entries : left.entries = right.entries.map renumbering.entry
  nextNumber : left.nextNumber =
    Renumbering.shift renumbering.firstTransaction renumbering.skippedTransactions
      right.nextNumber
  first_le : renumbering.firstTransaction ≤ right.nextNumber

/-- The checkers agree up to the numbers. -/
structure Checker.Matches (renumbering : Renumbering) (left right : Checker) : Prop where
  table : left.table.Matches renumbering right.table
  units : left.units = right.units.map renumbering.keyedCode

/-- The compilers agree up to the numbers, and a waiting transaction is newer than
the numbers that are skipped. -/
structure Compiler.Matches (renumbering : Renumbering) (left right : Compiler) : Prop where
  checker : left.checker.Matches renumbering right.checker
  opened : left.opened = right.opened.map renumbering.entry
  newer : ∀ transaction ∈ right.opened,
    renumbering.firstTransaction ≤ transaction.id.number

/-! ## Operations on matching states -/

namespace TransactionLog.Matches

variable {renumbering : Renumbering} {left right : TransactionLog}

theorem get?_eq (matched : Matches renumbering left right) (id : TransactionId) :
    left.get? (renumbering.transaction id) = (right.get? id).map renumbering.entry := by
  unfold get?
  rw [matched.entries, List.find?_map]
  congr 2
  funext transaction
  simp

theorem erase (matched : Matches renumbering left right) (id : TransactionId) :
    Matches renumbering (left.erase (renumbering.transaction id)) (right.erase id) where
  entries := by
    have sameTest : (fun transaction : Transaction =>
          decide (transaction.id ≠ renumbering.transaction id)) ∘ renumbering.entry =
        fun transaction => decide (transaction.id ≠ id) := by
      funext transaction
      simp
    simp only [TransactionLog.erase, matched.entries, List.filter_map, sameTest]
  nextNumber := matched.nextNumber
  first_le := matched.first_le

theorem place_map (placed : Transaction) (entries : List Transaction) :
    place (renumbering.entry placed) (entries.map renumbering.entry) =
      (place placed entries).map renumbering.entry := by
  induction entries with
  | nil => rfl
  | cons head tail inductionHypothesis =>
    have sameOrder : (renumbering.transaction head.id).number <
        (renumbering.transaction placed.id).number ↔ head.id.number < placed.id.number :=
      Renumbering.shift_lt_shift
    simp only [List.map_cons, place, Renumbering.id_entry, Renumbering.transaction_inj, sameOrder]
    split
    · rw [inductionHypothesis, List.map_cons]
    · split <;> rfl

theorem place (matched : Matches renumbering left right) (placed : Transaction) :
    Matches renumbering
      { left with entries := TransactionLog.place (renumbering.entry placed) left.entries }
      { right with entries := TransactionLog.place placed right.entries } where
  entries := by rw [matched.entries, place_map]
  nextNumber := matched.nextNumber
  first_le := matched.first_le

theorem allocate (matched : Matches renumbering left right) :
    Matches renumbering left.allocate.2 right.allocate.2 where
  entries := matched.entries
  nextNumber := by
    simp only [TransactionLog.allocate, matched.nextNumber,
      Renumbering.shift_of_le matched.first_le,
      Renumbering.shift_of_le (Nat.le_succ_of_le matched.first_le)]
    omega
  first_le := Nat.le_succ_of_le matched.first_le

/-- No entry has a number that was skipped. -/
theorem get?_skipped (matched : Matches renumbering left right) {id : TransactionId}
    (first : renumbering.firstTransaction ≤ id.number)
    (last : id.number < renumbering.firstTransaction + renumbering.skippedTransactions) :
    left.get? id = none := by
  rw [get?_eq_none_iff, matched.entries]
  rintro transaction member rfl
  obtain ⟨original, -, rfl⟩ := List.mem_map.mp member
  rw [Renumbering.id_entry] at first last
  have outside := Renumbering.shift_outside renumbering.firstTransaction
    renumbering.skippedTransactions original.id.number
  simp only [Renumbering.transaction] at first last
  omega

end TransactionLog.Matches

namespace Checker.Matches

variable {renumbering : Renumbering} {left right : Checker}

theorem dropUnit_map (id : TransactionId) (units : List (TransactionId × CodeUnit)) :
    dropUnit (renumbering.transaction id) (units.map renumbering.keyedCode) =
      (dropUnit id units).map renumbering.keyedCode := by
  unfold dropUnit
  rw [List.filter_map]
  congr 2
  funext code
  simp

theorem forget (matched : Matches renumbering left right) (id : TransactionId) :
    Matches renumbering (left.forget (renumbering.transaction id)) (right.forget id) where
  table := matched.table.forget id
  units := by simp only [Checker.forget, matched.units, dropUnit_map]

theorem collectUnit (matched : Matches renumbering left right) (id : TransactionId) :
    (renumbering.transaction id, (left.collectUnit (renumbering.transaction id)).1) =
        renumbering.keyedCode (id, (right.collectUnit id).1) ∧
      Matches renumbering (left.collectUnit (renumbering.transaction id)).2
        (right.collectUnit id).2 := by
  have found : left.units.find? (fun code => code.1 = renumbering.transaction id) =
      (right.units.find? fun code => code.1 = id).map renumbering.keyedCode := by
    rw [matched.units, List.find?_map]
    congr 2
    funext code
    simp
  unfold Checker.collectUnit
  rw [found]
  cases held : right.units.find? fun code => code.1 = id with
  | none =>
    refine ⟨?_, matched⟩
    by_cases before : id.number < renumbering.firstTransaction
    · simp only [Option.map_none, Renumbering.transaction_of_lt before,
        Renumbering.keyedCode_of_lt before]
    · simp only [Option.map_none, Renumbering.keyedCode_of_le (Nat.not_lt.mp before)]
      rfl
  | some code =>
    have key : code.1 = id := by simpa using List.find?_some held
    refine ⟨?_, matched.table, by simp only [Option.map_some, matched.units, dropUnit_map]⟩
    subst key
    exact Prod.ext (Renumbering.key_keyedCode code).symm rfl

theorem lookup_eq (matched : Matches renumbering left right) (name : String) :
    left.lookup name = (right.lookup name).map renumbering.declaration := by
  simp only [lookup, matched.table.lookup_eq, Option.map_map]
  rfl

theorem functionInfo?_eq (matched : Matches renumbering left right) (name : String) :
    left.functionInfo? name = (right.functionInfo? name).map renumbering.functionInfo := by
  unfold functionInfo?
  rw [matched.table.lookup_eq]
  cases right.table.lookup name with
  | none => rfl
  | some record =>
    simp only [Option.map_some, Renumbering.record]
    cases record.kind <;> rfl

end Checker.Matches

/-! ## Requests to matching compilers -/

namespace Compiler.Matches

variable {renumbering : Renumbering} {left right : Compiler} {leftLog rightLog : TransactionLog}

/-- Corresponding requests are compiled in corresponding transactions. -/
theorem transactionFor_eq (matched : Matches renumbering left right)
    (logs : leftLog.Matches renumbering rightLog) (request : CompileRequest) :
    (left.transactionFor leftLog (renumbering.request request)).1 =
        renumbering.entry (right.transactionFor rightLog request).1 ∧
      (left.transactionFor leftLog (renumbering.request request)).2.Matches renumbering
        (right.transactionFor rightLog request).2 ∧
      renumbering.firstTransaction ≤ (right.transactionFor rightLog request).1.id.number := by
  unfold transactionFor
  rw [matched.opened]
  cases waiting : right.opened with
  | some transaction => exact ⟨rfl, logs, matched.newer transaction waiting⟩
  | none =>
    refine ⟨?_, logs.allocate, logs.first_le⟩
    have newer : renumbering.firstTransaction ≤
        (((Transaction.new ⟨rightLog.nextNumber⟩ request.options).withOrigin
          request.origin).withEntry request.entry).id.number := logs.first_le
    simp only [Option.map_none, TransactionLog.allocate]
    rw [Renumbering.entry_of_le _ newer, logs.nextNumber]
    rfl

theorem abandonedChecker_matches {left right : Checker} (matched : left.Matches renumbering right)
    (id : TransactionId) :
    (abandonedChecker left (renumbering.transaction id)).Matches renumbering
      (abandonedChecker right id) :=
  ⟨matched.table.forget id, (matched.forget id).units⟩

theorem continuedBy_entry (transaction : Transaction) (text : String) :
    (renumbering.entry transaction).continuedBy text =
      renumbering.entry (transaction.continuedBy text) := by
  by_cases before : transaction.id.number < renumbering.firstTransaction
  · rw [Renumbering.entry_of_lt transaction before,
      Renumbering.entry_of_lt (transaction.continuedBy text) before]
  · rw [Renumbering.entry_of_le transaction (Nat.not_lt.mp before),
      Renumbering.entry_of_le (transaction.continuedBy text) (Nat.not_lt.mp before)]
    rfl

theorem committedWith_entry {transaction : Transaction}
    (newer : renumbering.firstTransaction ≤ transaction.id.number)
    (declarations : List DeclarationId) (diagnostics : List Diagnostic) :
    (renumbering.entry transaction).committedWith
        (declarations.map renumbering.declaration) diagnostics =
      renumbering.entry (transaction.committedWith declarations diagnostics) := by
  rw [Renumbering.entry_of_le transaction newer,
    Renumbering.entry_of_le (transaction.committedWith declarations diagnostics) newer]
  simp only [Transaction.committedWith, List.map_append]

/-- What becomes of corresponding transactions corresponds. -/
theorem settleReading_matches {left right : Checker} (matched : left.Matches renumbering right)
    (logs : leftLog.Matches renumbering rightLog) {transaction : Transaction}
    (newer : renumbering.firstTransaction ≤ transaction.id.number)
    (reading : Except SourceError (List Syntax.Item)) :
    (settleReading left leftLog (renumbering.entry transaction) reading).1 =
        renumbering.report (settleReading right rightLog transaction reading).1 ∧
      (settleReading left leftLog (renumbering.entry transaction) reading).2.1.Matches renumbering
        (settleReading right rightLog transaction reading).2.1 ∧
      (settleReading left leftLog (renumbering.entry transaction) reading).2.2.Matches renumbering
        (settleReading right rightLog transaction reading).2.2 := by
  have none_newer : ∀ transaction ∈ (none : Option Transaction),
      renumbering.firstTransaction ≤ transaction.id.number := fun _ absent => by cases absent
  cases reading with
  | error error =>
    cases error with
    | incomplete =>
      refine ⟨by simp [settleReading, Renumbering.report], ⟨matched, rfl, ?_⟩, logs⟩
      intro waiting kept
      obtain rfl := Option.some.inj kept
      exact newer
    | invalid diagnostic =>
      simp only [settleReading, Renumbering.id_entry]
      exact ⟨rfl, ⟨abandonedChecker_matches matched _, rfl, none_newer⟩, logs⟩
  | ok items =>
    have analyses := Analysis.analyze_matches matched.table items transaction.id
    have sameOptions : (renumbering.entry transaction).options = transaction.options := by
      rw [Renumbering.entry_of_le _ newer]
    simp only [settleReading, Renumbering.id_entry, analyses.diagnostics, analyses.hasErrors_eq,
      sameOptions]
    split
    · have between : Checker.Matches renumbering
          { left with
            table := (analyze items left.table (renumbering.transaction transaction.id)).table }
          { right with table := (analyze items right.table transaction.id).table } :=
        ⟨analyses.table, matched.units⟩
      exact ⟨rfl, ⟨abandonedChecker_matches between _, rfl, none_newer⟩, logs⟩
    · refine ⟨rfl, ⟨⟨analyses.table.commit _, ?_⟩, rfl, none_newer⟩, ?_⟩
      · simp only [List.map_cons, Renumbering.keyedCode_of_le newer, analyses.unit, matched.units,
          Checker.Matches.dropUnit_map]
      · rw [analyses.declarations, committedWith_entry newer]
        exact logs.place _

/-- A request to matching compilers is answered alike. -/
theorem compile (matched : Matches renumbering left right)
    (logs : leftLog.Matches renumbering rightLog) (leftWellFormed : left.WellFormed leftLog)
    (rightWellFormed : right.WellFormed rightLog) (request : CompileRequest) :
    ∃ report leftAfter leftLogged rightAfter rightLogged,
      right.compile rightLog request = .ok (report, rightAfter, rightLogged) ∧
      left.compile leftLog (renumbering.request request) =
        .ok (renumbering.report report, leftAfter, leftLogged) ∧
      leftAfter.Matches renumbering rightAfter ∧
      leftLogged.Matches renumbering rightLogged := by
  obtain ⟨transaction, allocated, chosen, -, -, -, answered⟩ :=
    compile_eq_settleReading rightWellFormed request
  obtain ⟨leftTransaction, leftAllocated, leftChosen, -, -, -, leftAnswered⟩ :=
    compile_eq_settleReading leftWellFormed (renumbering.request request)
  obtain ⟨sameTransaction, allocatedLogs, newer⟩ := matched.transactionFor_eq logs request
  rw [chosen, leftChosen] at sameTransaction allocatedLogs
  rw [chosen] at newer
  dsimp only at sameTransaction allocatedLogs newer
  subst sameTransaction
  have sameText : (renumbering.request request).text = request.text := rfl
  have sameSource : (renumbering.entry (transaction.continuedBy request.text)).source =
      (transaction.continuedBy request.text).source := by
    rw [Renumbering.entry_of_le (transaction.continuedBy request.text) newer]
  rw [sameText, continuedBy_entry, sameSource] at leftAnswered
  obtain ⟨sameReport, compilers, logged⟩ := settleReading_matches matched.checker allocatedLogs
    (show _ ≤ (transaction.continuedBy request.text).id.number from newer)
    (Syntax.parseProgram (transaction.continuedBy request.text).source)
  generalize settleReading left.checker leftAllocated
    (renumbering.entry (transaction.continuedBy request.text)) _ = leftResult
    at leftAnswered sameReport compilers logged
  generalize settleReading right.checker allocated (transaction.continuedBy request.text) _ =
    rightResult at answered sameReport compilers logged
  obtain ⟨leftReport, leftAfter, leftLogged⟩ := leftResult
  obtain ⟨report, rightAfter, rightLogged⟩ := rightResult
  obtain rfl : leftReport = renumbering.report report := sameReport
  exact ⟨report, leftAfter, leftLogged, rightAfter, rightLogged, answered, leftAnswered, compilers,
    logged⟩

theorem abandonOpen (matched : Matches renumbering left right) :
    left.abandonOpen.1 = right.abandonOpen.1.map renumbering.transaction ∧
      left.abandonOpen.2.Matches renumbering right.abandonOpen.2 := by
  unfold Compiler.abandonOpen
  rw [matched.opened]
  cases right.opened with
  | none => exact ⟨rfl, matched⟩
  | some transaction =>
    simp only [Option.map_some, rollBack, Renumbering.id_entry]
    exact ⟨trivial, matched.checker.forget _, rfl, fun _ absent => by cases absent⟩

theorem unload (matched : Matches renumbering left right)
    (logs : leftLog.Matches renumbering rightLog) (id : TransactionId) :
    (left.unload leftLog (renumbering.transaction id)).1 =
        (right.unload rightLog id).1.map renumbering.entry ∧
      (left.unload leftLog (renumbering.transaction id)).2.1.Matches renumbering
        (right.unload rightLog id).2.1 ∧
      (left.unload leftLog (renumbering.transaction id)).2.2.Matches renumbering
        (right.unload rightLog id).2.2 := by
  unfold Compiler.unload
  rw [logs.get?_eq]
  cases rightLog.get? id with
  | none => exact ⟨rfl, matched, logs⟩
  | some transaction =>
    exact ⟨rfl, ⟨matched.checker.forget id, matched.opened, matched.newer⟩, logs.erase id⟩

/-- A request to matching compilers is answered alike, whatever it is. -/
theorem perform (matched : Matches renumbering left right)
    (logs : leftLog.Matches renumbering rightLog) (leftWellFormed : left.WellFormed leftLog)
    (rightWellFormed : right.WellFormed rightLog) (operation : Operation) :
    ∃ answer leftAfter leftLogged rightAfter rightLogged,
      right.perform rightLog operation = .ok (answer, rightAfter, rightLogged) ∧
      left.perform leftLog (renumbering.operation operation) =
        .ok (renumbering.answer answer, leftAfter, leftLogged) ∧
      leftAfter.Matches renumbering rightAfter ∧
      leftLogged.Matches renumbering rightLogged := by
  cases operation with
  | compile request =>
    obtain ⟨report, leftAfter, leftLogged, rightAfter, rightLogged, compiled, leftCompiled,
      compilers, logged⟩ := matched.compile logs leftWellFormed rightWellFormed request
    refine ⟨.compiled report, leftAfter, leftLogged, rightAfter, rightLogged, ?_, ?_, compilers,
      logged⟩
    · simp [Compiler.perform, compiled, bind, Except.bind, pure, Except.pure]
    · simp [Compiler.perform, Renumbering.operation, Renumbering.answer, leftCompiled, bind,
        Except.bind, pure, Except.pure]
  | abandonOpen =>
    obtain ⟨sameAnswer, compilers⟩ := matched.abandonOpen
    refine ⟨_, _, _, _, _, rfl, ?_, compilers, logs⟩
    simp only [Renumbering.operation, Renumbering.answer, Compiler.perform, sameAnswer]
  | unload id =>
    obtain ⟨sameAnswer, compilers, logged⟩ := matched.unload logs id
    refine ⟨.unloaded (right.unload rightLog id).1, _, _, _, _, rfl, ?_, compilers, logged⟩
    simp only [Renumbering.operation, Renumbering.answer, Compiler.perform, sameAnswer]
  | collect id =>
    obtain ⟨sameAnswer, checkers⟩ := matched.checker.collectUnit id
    refine ⟨.collected (id, (right.checker.collectUnit id).1),
      { left with checker := (left.checker.collectUnit (renumbering.transaction id)).2 }, leftLog,
      { right with checker := (right.checker.collectUnit id).2 }, rightLog, rfl, ?_,
      ⟨checkers, matched.opened, matched.newer⟩, logs⟩
    simp only [Renumbering.operation, Renumbering.answer, Compiler.perform, sameAnswer]

/-- Matching compilers answer every sequence of requests alike. -/
theorem performAll (matched : Matches renumbering left right)
    (logs : leftLog.Matches renumbering rightLog) (leftWellFormed : left.WellFormed leftLog)
    (rightWellFormed : right.WellFormed rightLog) (operations : List Operation) :
    ∃ answers leftAfter leftLogged rightAfter rightLogged,
      right.performAll rightLog operations = .ok (answers, rightAfter, rightLogged) ∧
      left.performAll leftLog (operations.map renumbering.operation) =
        .ok (answers.map renumbering.answer, leftAfter, leftLogged) ∧
      leftAfter.Matches renumbering rightAfter ∧
      leftLogged.Matches renumbering rightLogged := by
  induction operations generalizing left right leftLog rightLog with
  | nil => exact ⟨[], left, leftLog, right, rightLog, rfl, rfl, matched, logs⟩
  | cons operation rest inductionHypothesis =>
    obtain ⟨answer, leftBetween, leftBetweenLog, rightBetween, rightBetweenLog, performed,
      leftPerformed, compilers, betweenLogs⟩ :=
      matched.perform logs leftWellFormed rightWellFormed operation
    have leftKept : leftBetween.WellFormed leftBetweenLog := by
      obtain ⟨_, _, _, again, kept⟩ := perform_ok leftWellFormed (renumbering.operation operation)
      rw [leftPerformed] at again
      cases again
      exact kept
    have rightKept : rightBetween.WellFormed rightBetweenLog := by
      obtain ⟨_, _, _, again, kept⟩ := perform_ok rightWellFormed operation
      rw [performed] at again
      cases again
      exact kept
    obtain ⟨answers, leftAfter, leftLogged, rightAfter, rightLogged, others, leftOthers, final,
      finalLogs⟩ := inductionHypothesis compilers betweenLogs leftKept rightKept
    refine ⟨answer :: answers, leftAfter, leftLogged, rightAfter, rightLogged, ?_, ?_, final,
      finalLogs⟩
    · rw [performAll_cons performed, others]
      rfl
    · rw [List.map_cons, performAll_cons leftPerformed, leftOthers]
      rfl

end Compiler.Matches

end IncrementalC
