import IncrementalC.Compilation.Scope
import IncrementalC.Proofs.Compilation.Operation
import Mathlib.Logic.Relation

/-!
Contract: which text gets into the log.

A compiler takes requests, and a scope is driven by its caller in between. Both read the whole text
of a transaction after each chunk. A request commits a transaction only if that reading found no
error. The commit of a scope does not look at what its last chunk came to.

Owns:
- the steps that requests and scopes take, with a history of readings and commits;
- that the text in the log is the text that was read last, and was found without error unless a
  scope committed it;
- that a scope can commit whatever it has read.

Does not own: what errors a text has.
-/

namespace IncrementalC

open Relation (ReflTransGen)

/-! ## Readings -/

/-- What the text of a transaction reads as next to the declarations of a table. -/
def readAs (table : DeclarationTable) (id : TransactionId) (text : String) : FeedOutcome :=
  match Syntax.parseProgram text with
  | .error .incomplete => .incomplete
  | .error (.invalid _) => .rejected
  | .ok items => if (analyze items table id).hasErrors then .rejected else .complete

/-- The transaction collects, and its text is that of the other with a chunk added. -/
structure Transaction.Continues (transaction : Transaction) (text : String)
    (fed : Transaction) : Prop where
  id : fed.id = transaction.id
  state : fed.state = .collecting
  source : fed.source = Input.joinContinuation transaction.source text

/-- The outcome of a chunk is what the whole text reads as. -/
theorem Checker.feed_reads {checker after : Checker} {transaction fed : Transaction}
    {text : String} {outcome : FeedOutcome}
    (takes : checker.feed transaction text = .ok (outcome, fed, after)) :
    transaction.Continues text fed ∧ outcome = readAs checker.table fed.id fed.source := by
  by_cases collecting : transaction.state = .collecting
  · have appended : transaction.appendSource text = .ok (transaction.continuedBy text) :=
      if_pos collecting
    have continues : transaction.Continues text (transaction.continuedBy text) :=
      ⟨rfl, collecting, rfl⟩
    simp only [Checker.feed, appended] at takes
    rcases reading : Syntax.parseProgram (transaction.continuedBy text).source with
      (_ | diagnostic) | items
    · rw [reading] at takes
      cases takes
      exact ⟨continues, by rw [readAs, reading]⟩
    · rw [reading] at takes
      cases takes
      exact ⟨continues, by rw [readAs, reading]⟩
    · rw [reading] at takes
      simp only [Checker.record,
        Compiler.addDeclarations_collecting (transaction.continuedBy text) collecting] at takes
      split at takes <;>
      · next failed =>
        cases takes
        refine ⟨⟨rfl, collecting, rfl⟩, ?_⟩
        simp only [readAs, reading, failed, Bool.false_eq_true, if_true, if_false]
  · have refused : transaction.appendSource text = .error (.inputRefused transaction.id) :=
      if_neg collecting
    simp only [Checker.feed, refused] at takes
    cases takes

namespace Compiler

variable {compiler after : Compiler} {log allocated logged : TransactionLog}
  {transaction fed : Transaction}

theorem feed_reads {text : String} {outcome : FeedOutcome}
    (takes : compiler.feed transaction text = .ok (outcome, fed, after)) :
    transaction.Continues text fed ∧
      outcome = readAs compiler.checker.table fed.id fed.source ∧
      after.opened = compiler.opened := by
  unfold feed at takes
  split at takes
  · cases takes
  · next step =>
    cases takes
    obtain ⟨continues, reads⟩ := Checker.feed_reads step
    exact ⟨continues, reads, rfl⟩

/-- A transaction that collects can be committed, whatever its text reads as. -/
theorem commit_collecting (compiler : Compiler) (log : TransactionLog)
    (collecting : transaction.state = .collecting) :
    compiler.commit log transaction =
      .ok ({ compiler with checker := compiler.checker.commit transaction.id },
        { log with entries :=
            TransactionLog.place { transaction with state := .committed } log.entries }) := by
  obtain ⟨id, state, declarations, options, origin, source, entry, kept⟩ := transaction
  obtain rfl : state = .collecting := collecting
  rfl

/-- A request leaves its transaction open, or discards it, or logs it if its text was found without
an error. -/
theorem compile_settles {request : CompileRequest} {report : CompileReport}
    (chosen : compiler.transactionFor log request = (transaction, allocated))
    (compiled : compiler.compile log request = .ok (report, after, logged)) :
    ∃ fed, transaction.Continues request.text fed ∧
      ((after.opened = some fed ∧ logged = allocated) ∨
        (after.opened = none ∧ logged = allocated) ∨
        after.opened = none ∧ readAs compiler.checker.table fed.id fed.source = .complete ∧
          ∃ entry : Transaction, entry.id = fed.id ∧ entry.source = fed.source ∧
            logged = { allocated with
              entries := TransactionLog.place entry allocated.entries }) := by
  simp only [compile, chosen] at compiled
  cases takes : feed { compiler with opened := none } transaction request.text with
  | error misuse =>
    rw [takes] at compiled
    cases compiled
  | ok step =>
    obtain ⟨outcome, fed, checked⟩ := step
    obtain ⟨continues, reads, unopened⟩ := feed_reads takes
    simp only [takes, bind, Except.bind] at compiled
    refine ⟨fed, continues, ?_⟩
    cases outcome with
    | incomplete =>
      cases compiled
      exact .inl ⟨rfl, rfl⟩
    | rejected =>
      cases compiled
      exact .inr (.inl ⟨unopened, rfl⟩)
    | complete =>
      simp only [settle_complete _ _ _ continues.state] at compiled
      split at compiled
      · cases compiled
        exact .inr (.inl ⟨unopened, rfl⟩)
      · cases compiled
        exact .inr (.inr ⟨unopened, reads.symm,
          { fed with state := .committed, diagnostics := _ }, rfl, rfl, rfl⟩)

end Compiler

/-! ## Histories -/

namespace Compiler

/-- What happens to a transaction. -/
inductive Event where
  /-- Its text so far is read next to the declarations of a table. -/
  | read (id : TransactionId) (text : String) (table : DeclarationTable)
  /-- A scope commits it. -/
  | committed (id : TransactionId)

/-- A compiler with its log, the transaction of the scope that is open, and what happened so far,
the newest first. -/
structure Situation where
  compiler : Compiler
  log : TransactionLog
  scope : Option Transaction
  events : List Event

/-- Nothing happened yet. -/
def Situation.new : Situation := ⟨.new, .empty, none, []⟩

/-- The readings that a request makes. -/
def readingsOf (compiler : Compiler) (log : TransactionLog) : Operation → List Event
  | .compile request =>
    let transaction := (compiler.transactionFor log request).1
    [.read transaction.id (Input.joinContinuation transaction.source request.text)
      compiler.checker.table]
  | .abandonOpen | .unload _ | .collect _ => []

/-- One step: a request, or one of what a caller does with a scope. Requests have to wait while a
scope is open. A scope that is dropped rolls its transaction back. -/
inductive Moves : Situation → Situation → Prop where
  | performed {compiler after : Compiler} {log logged : TransactionLog} {events : List Event}
      {operation : Operation} {answer : Answer}
      (performs : compiler.perform log operation = .ok (answer, after, logged)) :
      Moves ⟨compiler, log, none, events⟩
        ⟨after, logged, none, compiler.readingsOf log operation ++ events⟩
  | reported {compiler : Compiler} {log : TransactionLog} {events : List Event} :
      Moves ⟨compiler, log, none, events⟩ ⟨compiler.taken, log, none, events⟩
  | begun {compiler : Compiler} {log allocated : TransactionLog} {events : List Event}
      {options : TransactionOptions} {transaction : Transaction}
      (begins : compiler.begin log options = .ok (transaction, allocated)) :
      Moves ⟨compiler, log, none, events⟩ ⟨compiler, allocated, some transaction, events⟩
  | fed {compiler after : Compiler} {log : TransactionLog} {events : List Event}
      {transaction fed : Transaction} {text : String} {outcome : FeedOutcome}
      (takes : compiler.feed transaction text = .ok (outcome, fed, after)) :
      Moves ⟨compiler, log, some transaction, events⟩
        ⟨after, log, some fed, .read fed.id fed.source compiler.checker.table :: events⟩
  | committed {compiler after : Compiler} {log logged : TransactionLog} {events : List Event}
      {transaction : Transaction}
      (commits : compiler.commit log transaction = .ok (after, logged)) :
      Moves ⟨compiler, log, some transaction, events⟩
        ⟨after, logged, none, .committed transaction.id :: events⟩
  | keptOpen {compiler : Compiler} {log : TransactionLog} {events : List Event}
      {transaction : Transaction} :
      Moves ⟨compiler, log, some transaction, events⟩
        ⟨compiler.keepOpen transaction, log, none, events⟩
  | rolledBack {compiler : Compiler} {log : TransactionLog} {events : List Event}
      {transaction : Transaction} :
      Moves ⟨compiler, log, some transaction, events⟩
        ⟨compiler.rollBack transaction, log, none, events⟩

/-- Feeding several chunks is a course of steps. -/
theorem moves_feedAll {chunks : List String} {compiler after : Compiler}
    {transaction fed : Transaction} {outcomes : List FeedOutcome}
    (takes : compiler.feedAll transaction chunks = .ok (outcomes, fed, after))
    (log : TransactionLog) (events : List Event) :
    ∃ more, ReflTransGen Moves ⟨compiler, log, some transaction, events⟩
      ⟨after, log, some fed, more⟩ := by
  induction chunks generalizing compiler transaction outcomes events with
  | nil =>
    cases takes
    exact ⟨events, .refl⟩
  | cons chunk rest inductionHypothesis =>
    simp only [feedAll, bind, Except.bind] at takes
    cases first : compiler.feed transaction chunk with
    | error misuse =>
      rw [first] at takes
      cases takes
    | ok step =>
      obtain ⟨outcome, between, next⟩ := step
      simp only [first] at takes
      cases others : next.feedAll between rest with
      | error misuse =>
        rw [others] at takes
        cases takes
      | ok result =>
        obtain ⟨laterOutcomes, final, last⟩ := result
        simp only [others] at takes
        cases takes
        obtain ⟨more, course⟩ := inductionHypothesis others _
        exact ⟨more, .head (.fed first) course⟩

/-- Running a scope is a course of steps. -/
theorem moves_runScope {compiler after : Compiler} {log logged : TransactionLog}
    {options : TransactionOptions} {chunks : List String} {ending : ScopeEnding}
    {report : ScopeReport}
    (runs : compiler.runScope log options chunks ending = .ok (report, after, logged))
    (events : List Event) :
    ∃ more, ReflTransGen Moves ⟨compiler, log, none, events⟩ ⟨after, logged, none, more⟩ := by
  simp only [runScope, bind, Except.bind] at runs
  cases begins : compiler.begin log options with
  | error misuse =>
    rw [begins] at runs
    cases runs
  | ok first =>
    obtain ⟨transaction, allocated⟩ := first
    simp only [begins] at runs
    cases takes : compiler.feedAll transaction chunks with
    | error misuse =>
      rw [takes] at runs
      cases runs
    | ok second =>
      obtain ⟨outcomes, fed, between⟩ := second
      simp only [takes] at runs
      obtain ⟨more, course⟩ := moves_feedAll takes allocated events
      have opened : ReflTransGen Moves ⟨compiler, log, none, events⟩
          ⟨between, allocated, some fed, more⟩ := .head (.begun begins) course
      cases ends : between.endScope allocated fed ending with
      | error misuse =>
        rw [ends] at runs
        cases runs
      | ok third =>
        obtain ⟨ended, endedLog⟩ := third
        simp only [ends] at runs
        cases runs
        cases ending with
        | commit => exact ⟨_, (opened.tail (.committed ends)).tail .reported⟩
        | keepOpen =>
          cases ends
          exact ⟨_, (opened.tail .keptOpen).tail .reported⟩
        | rollBack =>
          cases ends
          exact ⟨_, (opened.tail .rolledBack).tail .reported⟩

/-! ## The last reading -/

/-- The text of a transaction and the declarations when it was read last. -/
def lastReading? (id : TransactionId) : List Event → Option (String × DeclarationTable)
  | [] => none
  | .read reader text table :: earlier =>
    if reader = id then some (text, table) else lastReading? id earlier
  | .committed _ :: earlier => lastReading? id earlier

/-- The text of the transaction is the one that was read last. Without a reading it has none. -/
def Recounts (events : List Event) (transaction : Transaction) : Prop :=
  match lastReading? transaction.id events with
  | none => transaction.source = ""
  | some (text, _) => transaction.source = text

/-- The last reading of the transaction was of its whole text, and found it to be complete and
without errors. -/
def Checked (events : List Event) (transaction : Transaction) : Prop :=
  ∃ table, lastReading? transaction.id events = some (transaction.source, table) ∧
    readAs table transaction.id transaction.source = .complete

/-- The log is backed by the history: its transactions are recounted by their last readings, which
found no error unless a scope committed the transaction. Numbers that are not given out yet were
never read. -/
structure Backed (log : TransactionLog) (events : List Event) : Prop where
  unbegun : ∀ id : TransactionId, log.nextNumber ≤ id.number → lastReading? id events = none
  begun : ∀ entry ∈ log.entries, entry.id.number < log.nextNumber
  recounts : ∀ entry ∈ log.entries, Recounts events entry
  checked : ∀ entry ∈ log.entries, Checked events entry ∨ .committed entry.id ∈ events

/-- The transaction can be read on and committed, and is recounted by its last reading. -/
structure Pending (log : TransactionLog) (events : List Event) (transaction : Transaction) :
    Prop where
  collecting : transaction.state = .collecting
  begun : transaction.id.number < log.nextNumber
  unlogged : ∀ entry ∈ log.entries, entry.id ≠ transaction.id
  recounts : Recounts events transaction

section

variable {log : TransactionLog} {events : List Event} {transaction fed : Transaction}

theorem lastReading?_read_of_ne {reader id : TransactionId} (other : id ≠ reader) (text : String)
    (table : DeclarationTable) :
    lastReading? id (.read reader text table :: events) = lastReading? id events :=
  if_neg (Ne.symm other)

theorem lastReading?_read_self (id : TransactionId) (text : String) (table : DeclarationTable)
    (events : List Event) :
    lastReading? id (.read id text table :: events) = some (text, table) := if_pos rfl

theorem Recounts.of_lastReading? {later : List Event} (recounts : Recounts events transaction)
    (same : lastReading? transaction.id later = lastReading? transaction.id events) :
    Recounts later transaction := by
  unfold Recounts
  rw [same]
  exact recounts

theorem Checked.of_lastReading? {later : List Event} (checked : Checked events transaction)
    (same : lastReading? transaction.id later = lastReading? transaction.id events) :
    Checked later transaction := by
  obtain ⟨table, last, complete⟩ := checked
  exact ⟨table, same.trans last, complete⟩

namespace Backed

/-- Handing out a number keeps the log backed. -/
theorem allocate (backed : Backed log events) : Backed log.allocate.2 events where
  unbegun id le := backed.unbegun id (Nat.le_of_succ_le le)
  begun entry member := Nat.lt_succ_of_lt (backed.begun entry member)
  recounts := backed.recounts
  checked := backed.checked

/-- A transaction with a new number is pending. -/
theorem pending_of_new (backed : Backed log events) (collecting : transaction.state = .collecting)
    (new : transaction.id = log.allocate.1) (empty : transaction.source = "") :
    Pending log.allocate.2 events transaction where
  collecting := collecting
  begun := by
    rw [new]
    exact Nat.lt_succ_self _
  unlogged entry member same := by
    have begun := backed.begun entry member
    rw [same, new] at begun
    exact Nat.lt_irrefl _ begun
  recounts := by
    have unread := backed.unbegun transaction.id (by rw [new]; exact Nat.le_refl _)
    unfold Recounts
    rw [unread]
    exact empty

/-- Reading a pending transaction concerns nothing in the log. -/
theorem read (backed : Backed log events) (pending : Pending log events transaction)
    (same : fed.id = transaction.id) (text : String) (table : DeclarationTable) :
    Backed log (.read fed.id text table :: events) where
  unbegun id le := by
    have other : id ≠ fed.id := by
      rintro rfl
      rw [same] at le
      exact Nat.not_lt.mpr le pending.begun
    rw [lastReading?_read_of_ne other]
    exact backed.unbegun id le
  begun := backed.begun
  recounts entry member := (backed.recounts entry member).of_lastReading?
    (lastReading?_read_of_ne (same ▸ pending.unlogged entry member) text table)
  checked entry member :=
    (backed.checked entry member).imp
      (fun checked => checked.of_lastReading?
        (lastReading?_read_of_ne (same ▸ pending.unlogged entry member) text table))
      (List.mem_cons_of_mem _)

theorem committed (backed : Backed log events) (id : TransactionId) :
    Backed log (.committed id :: events) where
  unbegun := backed.unbegun
  begun := backed.begun
  recounts := backed.recounts
  checked entry member := (backed.checked entry member).imp_right (List.mem_cons_of_mem _)

/-- Logging a transaction that is recounted, and that was checked or committed by a scope. -/
theorem place (backed : Backed log events) (begun : transaction.id.number < log.nextNumber)
    (recounts : Recounts events transaction)
    (checked : Checked events transaction ∨ .committed transaction.id ∈ events) :
    Backed { log with entries := TransactionLog.place transaction log.entries } events where
  unbegun := backed.unbegun
  begun entry member := by
    rcases TransactionLog.mem_place member with rfl | old
    · exact begun
    · exact backed.begun entry old
  recounts entry member := by
    rcases TransactionLog.mem_place member with rfl | old
    · exact recounts
    · exact backed.recounts entry old
  checked entry member := by
    rcases TransactionLog.mem_place member with rfl | old
    · exact checked
    · exact backed.checked entry old

theorem erase (backed : Backed log events) (id : TransactionId) : Backed (log.erase id) events where
  unbegun := backed.unbegun
  begun entry member := backed.begun entry (List.mem_of_mem_filter member)
  recounts entry member := backed.recounts entry (List.mem_of_mem_filter member)
  checked entry member := backed.checked entry (List.mem_of_mem_filter member)

end Backed

/-- A transaction that was read on is recounted by that reading. -/
theorem Pending.read (pending : Pending log events transaction) {text : String}
    (continues : transaction.Continues text fed) (table : DeclarationTable) :
    Pending log (.read fed.id fed.source table :: events) fed where
  collecting := continues.state
  begun := continues.id ▸ pending.begun
  unlogged := continues.id ▸ pending.unlogged
  recounts := by
    unfold Recounts
    rw [lastReading?_read_self]

theorem Pending.erase (pending : Pending log events transaction) (id : TransactionId) :
    Pending (log.erase id) events transaction :=
  ⟨pending.collecting, pending.begun,
    fun entry member => pending.unlogged entry (List.mem_of_mem_filter member), pending.recounts⟩

end

/-! ## Steps keep the log backed -/

/-- The log is backed, and so are the transaction that waits for more input and the one of the open
scope, of which there is one at most. -/
structure Explained (situation : Situation) : Prop where
  backed : Backed situation.log situation.events
  opened : ∀ transaction ∈ situation.compiler.opened,
    Pending situation.log situation.events transaction
  scope : ∀ transaction ∈ situation.scope,
    Pending situation.log situation.events transaction ∧ situation.compiler.opened = none

theorem explained_new : Explained .new where
  backed := ⟨fun _ _ => rfl, fun _ absent => absurd absent List.not_mem_nil,
    fun _ absent => absurd absent List.not_mem_nil, fun _ absent => absurd absent List.not_mem_nil⟩
  opened _ absent := by cases absent
  scope _ absent := by cases absent

section

variable {compiler after : Compiler} {log allocated logged : TransactionLog}
  {events : List Event} {transaction : Transaction}

/-- The transaction of a request is pending. -/
theorem Explained.transactionFor (explained : Explained ⟨compiler, log, none, events⟩)
    {request : CompileRequest}
    (chosen : compiler.transactionFor log request = (transaction, allocated)) :
    Backed allocated events ∧ Pending allocated events transaction := by
  unfold Compiler.transactionFor at chosen
  cases waiting : compiler.opened with
  | some current =>
    rw [waiting] at chosen
    cases chosen
    exact ⟨explained.backed, explained.opened _ waiting⟩
  | none =>
    rw [waiting] at chosen
    cases chosen
    exact ⟨explained.backed.allocate, explained.backed.pending_of_new rfl rfl rfl⟩

theorem Explained.compile (explained : Explained ⟨compiler, log, none, events⟩)
    {request : CompileRequest} {report : CompileReport}
    (compiled : compiler.compile log request = .ok (report, after, logged)) :
    Explained ⟨after, logged, none, compiler.readingsOf log (.compile request) ++ events⟩ := by
  rcases chosen : compiler.transactionFor log request with ⟨transaction, allocated⟩
  obtain ⟨backed, pending⟩ := explained.transactionFor chosen
  obtain ⟨fed, continues, cases⟩ := compile_settles chosen compiled
  have reading : compiler.readingsOf log (.compile request) ++ events =
      .read fed.id fed.source compiler.checker.table :: events := by
    rw [readingsOf, chosen, continues.id, continues.source]
    rfl
  have readBacked := backed.read pending continues.id fed.source compiler.checker.table
  have readPending := pending.read continues compiler.checker.table
  rw [reading]
  rcases cases with ⟨opened, rfl⟩ | ⟨opened, rfl⟩ | ⟨opened, complete, entry, sameId, sameText, rfl⟩
  · refine ⟨readBacked, fun waiting isOpen => ?_, fun _ absent => by cases absent⟩
    obtain rfl := Option.some.inj (opened.symm.trans isOpen)
    exact readPending
  · refine ⟨readBacked, fun waiting isOpen => ?_, fun _ absent => by cases absent⟩
    cases opened.symm.trans isOpen
  · refine ⟨?_, fun waiting isOpen => ?_, fun _ absent => by cases absent⟩
    · have last := lastReading?_read_self fed.id fed.source
        compiler.checker.table events
      apply readBacked.place
      · exact sameId ▸ readPending.begun
      · unfold Recounts
        rw [sameId, last]
        exact sameText
      · refine .inl ⟨compiler.checker.table, ?_, ?_⟩
        · rw [sameId, sameText]
          exact last
        · rw [sameId, sameText]
          exact complete
    · cases opened.symm.trans isOpen

theorem Explained.perform (explained : Explained ⟨compiler, log, none, events⟩)
    {operation : Operation} {answer : Answer}
    (performs : compiler.perform log operation = .ok (answer, after, logged)) :
    Explained ⟨after, logged, none, compiler.readingsOf log operation ++ events⟩ := by
  have alone : ∀ transaction ∈ (none : Option Transaction),
      Pending logged events transaction ∧ after.opened = none := fun _ absent => by cases absent
  cases operation with
  | compile request =>
    simp only [Compiler.perform, bind, Except.bind] at performs
    cases compiled : compiler.compile log request with
    | error misuse =>
      rw [compiled] at performs
      cases performs
    | ok result =>
      obtain ⟨report, between, betweenLog⟩ := result
      rw [compiled] at performs
      cases performs
      exact explained.compile compiled
  | abandonOpen =>
    cases performs
    refine ⟨explained.backed, fun waiting isOpen => ?_, alone⟩
    unfold abandonOpen at isOpen
    split at isOpen
    · exact explained.opened waiting isOpen
    · cases isOpen
  | unload id =>
    cases found : log.get? id with
    | none =>
      simp only [Compiler.perform, unload, found] at performs
      cases performs
      exact explained
    | some transaction =>
      simp only [Compiler.perform, unload, found] at performs
      cases performs
      exact ⟨explained.backed.erase id,
        fun waiting isOpen => (explained.opened waiting isOpen).erase id, alone⟩
  | collect id =>
    cases performs
    exact ⟨explained.backed, explained.opened, alone⟩

end

/-- A step keeps the log backed. -/
theorem Explained.moves {before after : Situation} (explained : Explained before)
    (moves : Moves before after) : Explained after := by
  cases moves with
  | performed performs => exact explained.perform performs
  | reported => exact ⟨explained.backed, explained.opened, explained.scope⟩
  | @begun compiler log _ _ _ _ begins =>
    unfold begin at begins
    split at begins
    · cases begins
    · next closed =>
      cases begins
      have unopened : compiler.opened = none := by simpa using closed
      refine ⟨explained.backed.allocate, fun waiting isOpen => ?_, fun transaction isScope => ?_⟩
      · cases unopened.symm.trans isOpen
      · obtain rfl := Option.some.inj isScope
        exact ⟨explained.backed.pending_of_new rfl rfl rfl, unopened⟩
  | @fed compiler _ _ _ _ _ _ _ takes =>
    obtain ⟨continues, -, sameOpened⟩ := feed_reads takes
    obtain ⟨pending, unopened⟩ := explained.scope _ rfl
    have stillUnopened := sameOpened.trans unopened
    refine ⟨explained.backed.read pending continues.id _ _, fun waiting isOpen => ?_,
      fun transaction isScope => ?_⟩
    · cases stillUnopened.symm.trans isOpen
    · obtain rfl := Option.some.inj isScope
      exact ⟨pending.read continues compiler.checker.table, stillUnopened⟩
  | @committed compiler _ log _ events transaction commits =>
    obtain ⟨pending, unopened⟩ := explained.scope _ rfl
    rw [commit_collecting compiler log pending.collecting] at commits
    cases commits
    refine ⟨?_, fun waiting isOpen => ?_, fun _ absent => by cases absent⟩
    · exact (explained.backed.committed transaction.id).place pending.begun pending.recounts
        (.inr List.mem_cons_self)
    · cases unopened.symm.trans isOpen
  | keptOpen =>
    obtain ⟨pending, -⟩ := explained.scope _ rfl
    refine ⟨explained.backed, fun waiting isOpen => ?_, fun _ absent => by cases absent⟩
    obtain rfl := Option.some.inj isOpen
    exact pending
  | rolledBack =>
    obtain ⟨-, unopened⟩ := explained.scope _ rfl
    refine ⟨explained.backed, fun waiting isOpen => ?_, fun _ absent => by cases absent⟩
    cases unopened.symm.trans isOpen

/-- Whatever happened, the log is backed. -/
theorem explained_of_moves {situation : Situation}
    (course : ReflTransGen Moves .new situation) : Explained situation := by
  induction course with
  | refl => exact explained_new
  | tail _ moves inductionHypothesis => exact inductionHypothesis.moves moves

/-- A transaction in the log has the text that was read last for it. That reading was of a complete
text without errors, unless a scope committed the transaction. A scope can do so whatever its last
chunk came to: its transaction is logged with that text. So exactly those texts are logged unchecked
that a scope commits after a chunk with another outcome. -/
theorem logged_text_is_checked_unless_a_scope_commits_it {situation : Situation}
    (course : ReflTransGen Moves .new situation) :
    (∀ entry ∈ situation.log.entries, Recounts situation.events entry ∧
      (¬ Checked situation.events entry → .committed entry.id ∈ situation.events)) ∧
    ∀ transaction ∈ situation.scope, ∃ after logged entry,
      situation.compiler.commit situation.log transaction = .ok (after, logged) ∧
      logged.get? transaction.id = some entry ∧ entry.source = transaction.source ∧
      (Checked (.committed transaction.id :: situation.events) entry ↔
        Checked situation.events transaction) := by
  have explained := explained_of_moves course
  refine ⟨fun entry member => ?_, fun transaction isScope => ?_⟩
  · have checked := explained.backed.checked entry member
    exact ⟨explained.backed.recounts entry member, checked.resolve_left⟩
  · obtain ⟨pending, -⟩ := explained.scope transaction isScope
    refine ⟨_, _, { transaction with state := .committed },
      commit_collecting _ _ pending.collecting, ?_, rfl, Iff.rfl⟩
    rw [TransactionLog.get?_place, if_pos rfl]

/-- A scope that commits a text which was refused. -/
theorem a_refused_text_is_logged :
    ∃ report after logged events,
      Compiler.new.runScope .empty .declaration ["int x = y;"] .commit =
        .ok (report, after, logged) ∧
      report.outcomes = [.rejected] ∧ logged.ids = [⟨0⟩] ∧
      ∀ entry ∈ logged.entries, Recounts events entry ∧
        (¬ Checked events entry → .committed entry.id ∈ events) := by
  have ends : (Compiler.new.runScope .empty .declaration ["int x = y;"] .commit).toOption.map
      (fun result => (result.1.outcomes, result.2.2.ids)) = some ([.rejected], [⟨0⟩]) := by
    decide +kernel
  cases runs : Compiler.new.runScope .empty .declaration ["int x = y;"] .commit with
  | error misuse =>
    rw [runs] at ends
    cases ends
  | ok result =>
    obtain ⟨report, after, logged⟩ := result
    rw [runs] at ends
    obtain ⟨outcomes, ids⟩ := Prod.mk.inj (Option.some.inj ends)
    obtain ⟨events, course⟩ := moves_runScope runs []
    exact ⟨report, after, logged, events, rfl, outcomes, ids,
      (logged_text_is_checked_unless_a_scope_commits_it course).1⟩

end Compiler

end IncrementalC
