import IncrementalC.Analysis.Program
import IncrementalC.Syntax.Parser

/-!
Contract: checking the text of transactions against everything declared so far.

The checker takes the text of a transaction in chunks. After each chunk it reads the
whole text again; a text that reads completely is analysed, and its declarations are
pending until the transaction is settled.

Owns:
- the table of declarations;
- lowered code that was not collected yet;
- reports that were not taken yet.

Does not own: the transactions, or when they are committed.
-/

namespace IncrementalC

/-- What became of a chunk of text. -/
inductive FeedOutcome where
  /-- The text was read and analysed without an error. -/
  | complete
  /-- The text stops inside something that more text could finish. -/
  | incomplete
  /-- An error was reported. -/
  | rejected
deriving DecidableEq, Repr

/-- What is known of a function. -/
structure FunctionInfo where
  declaration : DeclarationId
  arity : Nat
  /-- The transaction that holds the body, if one does. -/
  definition : Option TransactionId
deriving DecidableEq, Repr

/-- The state of checking. -/
structure Checker where
  table : DeclarationTable
  units : List (TransactionId × CodeUnit)
  diagnostics : List Diagnostic

namespace Checker

/-- A checker that has seen nothing. -/
def new : Checker := ⟨.empty, [], []⟩

/-- The units without that of a transaction. -/
def dropUnit (id : TransactionId) (units : List (TransactionId × CodeUnit)) :
    List (TransactionId × CodeUnit) :=
  units.filter fun entry => entry.1 ≠ id

/-- Adds the outcome of an analysis to a transaction whose text reads as a program. -/
def record (checker : Checker) (transaction : Transaction) (analysis : Analysis) :
    Except Misuse (FeedOutcome × Transaction × Checker) :=
  match transaction.addDeclarations analysis.declarations with
  | .error misuse => .error misuse
  | .ok extended =>
    let reported : Checker :=
      { checker with
        table := analysis.table,
        diagnostics := checker.diagnostics ++ analysis.diagnostics }
    if analysis.hasErrors then
      .ok (.rejected, extended, reported)
    else
      let units := (transaction.id, analysis.unit) :: dropUnit transaction.id checker.units
      .ok (.complete, extended, { reported with units })

/-- Takes one chunk of a transaction's text. -/
def feed (checker : Checker) (transaction : Transaction) (text : String) :
    Except Misuse (FeedOutcome × Transaction × Checker) :=
  match transaction.appendSource text with
  | .error misuse => .error misuse
  | .ok extended =>
    match Syntax.parseProgram extended.source with
    | .error .incomplete => .ok (.incomplete, extended, checker)
    | .error (.invalid diagnostic) =>
      .ok (.rejected, extended,
        { checker with diagnostics := checker.diagnostics ++ [diagnostic] })
    | .ok items => checker.record extended (analyze items checker.table extended.id)

/-- Hands out the reports since the last time. -/
def takeDiagnostics (checker : Checker) : List Diagnostic × Checker :=
  (checker.diagnostics, { checker with diagnostics := [] })

/-- Puts the declarations of a transaction in force. -/
def commit (checker : Checker) (id : TransactionId) : Checker :=
  { checker with table := (checker.table.commit id).2 }

/-- Forgets the declarations and the code of a transaction, whether it is rolled back
or unloaded. -/
def forget (checker : Checker) (id : TransactionId) : Checker :=
  { checker with table := (checker.table.forget id).2, units := dropUnit id checker.units }

/-- Hands out the lowered code of a transaction; a second request finds none. -/
def collectUnit (checker : Checker) (id : TransactionId) : CodeUnit × Checker :=
  match checker.units.find? fun entry => entry.1 = id with
  | some entry => (entry.2, { checker with units := dropUnit id checker.units })
  | none => (.empty (some id), checker)

/-- The newest live declaration of a name. -/
def lookup (checker : Checker) (name : String) : Option DeclarationId :=
  (checker.table.lookup name).map DeclarationRecord.id

def declarationName? (checker : Checker) (id : DeclarationId) : Option String :=
  (checker.table.get? id).map DeclarationRecord.name

def declarationOwner? (checker : Checker) (id : DeclarationId) : Option TransactionId :=
  (checker.table.get? id).map DeclarationRecord.owner

/-- What is known of a function, if a name is one. -/
def functionInfo? (checker : Checker) (name : String) : Option FunctionInfo :=
  match checker.table.lookup name with
  | none => none
  | some record =>
    match record.kind with
    | .variable => none
    | .function arity _ definition => some ⟨record.id, arity, definition⟩

end Checker

end IncrementalC
