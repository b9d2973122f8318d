import IncrementalC.Compilation.Checker
import IncrementalC.Transaction.Log

/-!
Contract: compiling text transaction by transaction.

A compilation request is compiled in a transaction of its own, unless a transaction
is waiting for more input, which the request then continues. The transaction ends in
the log, is discarded without a trace, or waits for more input.

Owns:
- the transaction that waits for more input;
- the steps of a transaction: begin, feed, keep open, commit, roll back;
- compilation requests and their reports.

Does not own: generating or running code.
-/

namespace IncrementalC

/-- How a compilation request ended. -/
inductive CompileVerdict where
  | success
  | failure
  /-- The transaction stays open for a continuation. -/
  | moreInputExpected
deriving DecidableEq, Repr

/-- A request to compile text. -/
structure CompileRequest where
  text : String
  options : TransactionOptions
  /-- The function made up for wrapped input. -/
  entry : Option String := none
  /-- The declaration that asked for the request. -/
  origin : Option DeclarationId := none
deriving DecidableEq, Repr

/-- What came of a request; benign reports are left out. -/
structure CompileReport where
  verdict : CompileVerdict
  transaction : TransactionId
  diagnostics : List Diagnostic
deriving DecidableEq, Repr

/-- The state of compiling. -/
structure Compiler where
  checker : Checker
  /-- The transaction that waits for more input. -/
  opened : Option Transaction

namespace Compiler

/-- A compiler that has compiled nothing. -/
def new : Compiler := ⟨.new, none⟩

/-- Whether a name has a live declaration. -/
def isDeclared (compiler : Compiler) (name : String) : Bool :=
  (compiler.checker.lookup name).isSome

/-! ## The steps of a transaction -/

/-- Begins a transaction; refused while one waits for more input. -/
def begin (compiler : Compiler) (log : TransactionLog) (options : TransactionOptions) :
    Except Misuse (Transaction × TransactionLog) :=
  if compiler.opened.isSome then
    .error .alreadyCollecting
  else
    let (id, allocated) := log.allocate
    .ok (.new id options, allocated)

def feed (compiler : Compiler) (transaction : Transaction) (text : String) :
    Except Misuse (FeedOutcome × Transaction × Compiler) :=
  match compiler.checker.feed transaction text with
  | .error misuse => .error misuse
  | .ok (outcome, fed, checker) => .ok (outcome, fed, { compiler with checker })

/-- Leaves a transaction waiting for more input. -/
def keepOpen (compiler : Compiler) (transaction : Transaction) : Compiler :=
  { compiler with opened := some transaction }

/-- The complete form of a transaction that may still be collecting. -/
def completed (transaction : Transaction) : Except Misuse Transaction :=
  if transaction.state = .collecting then transaction.moveTo .complete else .ok transaction

/-- Commits a transaction and logs it. -/
def commit (compiler : Compiler) (log : TransactionLog) (transaction : Transaction) :
    Except Misuse (Compiler × TransactionLog) := do
  let complete ← completed transaction
  let committed ← complete.moveTo .committed
  let logged ← log.append committed
  return ({ compiler with checker := compiler.checker.commit committed.id }, logged)

/-- Discards a transaction. -/
def rollBack (compiler : Compiler) (transaction : Transaction) : Compiler :=
  { compiler with checker := compiler.checker.forget transaction.id }

/-! ## Requests -/

/-- The transaction that a request is compiled in. A waiting one keeps the options it
was begun with. -/
def transactionFor (compiler : Compiler) (log : TransactionLog) (request : CompileRequest) :
    Transaction × TransactionLog :=
  match compiler.opened with
  | some transaction => (transaction, log)
  | none =>
    let (id, allocated) := log.allocate
    (((Transaction.new id request.options).withOrigin request.origin).withEntry request.entry,
      allocated)

/-- Settles a transaction whose text has just been fed. -/
def settle (compiler : Compiler) (log : TransactionLog) (transaction : Transaction)
    (outcome : FeedOutcome) (diagnostics : List Diagnostic) :
    Except Misuse (CompileVerdict × Compiler × TransactionLog) :=
  match outcome with
  | .incomplete => .ok (.moreInputExpected, compiler.keepOpen transaction, log)
  | .rejected => .ok (.failure, compiler.rollBack transaction, log)
  | .complete => do
    let complete ← transaction.moveTo .complete
    if diagnostics.any fun diagnostic =>
        diagnostic.isFatal transaction.options.fatalWarnings then
      return (.failure, compiler.rollBack complete, log)
    else
      let (committed, logged) ← compiler.commit log (complete.withDiagnostics diagnostics)
      return (.success, committed, logged)

/-- Compiles one chunk of text. -/
def compile (compiler : Compiler) (log : TransactionLog) (request : CompileRequest) :
    Except Misuse (CompileReport × Compiler × TransactionLog) := do
  let (transaction, allocated) := compiler.transactionFor log request
  let (outcome, fed, checked) ← { compiler with opened := none }.feed transaction request.text
  let (reports, checker) := checked.checker.takeDiagnostics
  let diagnostics := reports.filter fun diagnostic => !diagnostic.isBenign
  let (verdict, settled, logged) ←
    { checked with checker }.settle allocated fed outcome diagnostics
  return (⟨verdict, transaction.id, diagnostics⟩, settled, logged)

/-- Discards the transaction that waits for more input. -/
def abandonOpen (compiler : Compiler) : Option TransactionId × Compiler :=
  match compiler.opened with
  | none => (none, compiler)
  | some transaction =>
    (some transaction.id, { compiler with opened := none }.rollBack transaction)

/-- Removes a transaction from the log and forgets its declarations. -/
def unload (compiler : Compiler) (log : TransactionLog) (id : TransactionId) :
    Option Transaction × Compiler × TransactionLog :=
  match log.get? id with
  | none => (none, compiler, log)
  | some transaction =>
    (some transaction, { compiler with checker := compiler.checker.forget id }, log.erase id)

end Compiler

end IncrementalC
