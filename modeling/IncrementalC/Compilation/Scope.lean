import IncrementalC.Compilation.Compiler

/-!
Contract: a transaction driven chunk by chunk.

A scope begins a transaction, feeds it chunks of text, and ends it. A scope that is
not ended in another way discards its transaction.

Owns: the ways to end a scope, and running one.

Does not own: the single steps.
-/

namespace IncrementalC

/-- How a scope is ended. -/
inductive ScopeEnding where
  | commit
  | keepOpen
  | rollBack
deriving DecidableEq, Repr

/-- What came of a scope. -/
structure ScopeReport where
  /-- The outcome of each chunk, in order. -/
  outcomes : List FeedOutcome
  /-- The transaction before the scope was ended. -/
  transaction : Transaction
  /-- The reports of all chunks. -/
  diagnostics : List Diagnostic
deriving DecidableEq, Repr

namespace Compiler

/-- Feeds several chunks to a transaction. -/
def feedAll (compiler : Compiler) (transaction : Transaction) :
    List String → Except Misuse (List FeedOutcome × Transaction × Compiler)
  | [] => .ok ([], transaction, compiler)
  | chunk :: rest => do
    let (outcome, fed, next) ← compiler.feed transaction chunk
    let (outcomes, final, last) ← next.feedAll fed rest
    return (outcome :: outcomes, final, last)

/-- Ends a scope. -/
def endScope (compiler : Compiler) (log : TransactionLog) (transaction : Transaction) :
    ScopeEnding → Except Misuse (Compiler × TransactionLog)
  | .commit => compiler.commit log transaction
  | .keepOpen => .ok (compiler.keepOpen transaction, log)
  | .rollBack => .ok (compiler.rollBack transaction, log)

/-- Runs a scope. -/
def runScope (compiler : Compiler) (log : TransactionLog) (options : TransactionOptions)
    (chunks : List String) (ending : ScopeEnding) :
    Except Misuse (ScopeReport × Compiler × TransactionLog) := do
  let (begun, allocated) ← compiler.begin log options
  let (outcomes, transaction, fed) ← compiler.feedAll begun chunks
  let (ended, logged) ← fed.endScope allocated transaction ending
  let (diagnostics, checker) := ended.checker.takeDiagnostics
  return (⟨outcomes, transaction, diagnostics⟩, { ended with checker }, logged)

end Compiler

end IncrementalC
