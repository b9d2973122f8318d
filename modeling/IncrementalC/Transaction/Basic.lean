import IncrementalC.Diagnostic
import IncrementalC.Input.Scan

/-!
Contract: transactions, the units in which a program grows.

A transaction collects text and the declarations found in it, is then complete, and
ends committed or rolled back. Each operation that a state forbids is refused with
the misuse it would be.

Owns:
- numbers of transactions and of declarations;
- the options of a transaction, its states, and the transitions between them;
- accumulated text, declarations, origin, entry function and kept reports.

Does not own: the order of committed transactions, or what the text means.
-/

namespace IncrementalC

/-- The number of a transaction; later transactions have larger numbers. -/
structure TransactionId where
  number : Nat
deriving DecidableEq, Repr, Inhabited

/-- The written form `#number`. -/
def TransactionId.render (id : TransactionId) : String := "#" ++ toString id.number

/-- The number of a declaration in the table of declarations. -/
structure DeclarationId where
  number : Nat
deriving DecidableEq, Repr, Inhabited

/-- How far a transaction has come. -/
inductive TransactionState where
  /-- Text and declarations are being added. -/
  | collecting
  /-- Nothing more will be added. -/
  | complete
  /-- The declarations are in force. -/
  | committed
  /-- The declarations were discarded. -/
  | rolledBack
deriving DecidableEq, Repr

namespace TransactionState

/-- The name of a state in messages. -/
def describe : TransactionState → String
  | .collecting => "Collecting"
  | .complete => "Complete"
  | .committed => "Committed"
  | .rolledBack => "RolledBack"

/-- Whether no state can follow. -/
def isTerminal : TransactionState → Bool
  | .committed | .rolledBack => true
  | .collecting | .complete => false

/-- Which state can follow which. -/
def canBecome : TransactionState → TransactionState → Bool
  | .collecting, .complete | .collecting, .rolledBack
  | .complete, .committed | .complete, .rolledBack => true
  | _, _ => false

end TransactionState

/-- What is done with the code of a transaction, and which reports stop it. -/
structure TransactionOptions where
  /-- Code is generated for the declarations. -/
  generatesCode : Bool
  /-- Static initializers run right after the commit. -/
  runsInitializers : Bool
  /-- Warnings that are not benign stop the transaction. -/
  fatalWarnings : Bool
deriving DecidableEq, Repr

namespace TransactionOptions

/-- Declarations whose code is generated on first use. -/
def declaration : TransactionOptions := ⟨true, false, false⟩

/-- Declarations that never get code. -/
def headerOnly : TransactionOptions := ⟨false, false, false⟩

/-- Input that runs at once. -/
def execution : TransactionOptions := ⟨true, true, false⟩

/-- The same options with the given treatment of warnings. -/
def withFatalWarnings (options : TransactionOptions) (fatal : Bool) : TransactionOptions :=
  { options with fatalWarnings := fatal }

end TransactionOptions

/-- Uses of the system that its states forbid. -/
inductive Misuse where
  | inputRefused (id : TransactionId)
  | declarationRefused (id : TransactionId)
  | invalidTransition (id : TransactionId) (source target : TransactionState)
  /-- Only committed transactions are logged. -/
  | uncommittedEntry
  /-- One transaction at a time collects input. -/
  | alreadyCollecting
  | uncommittedRun (id : TransactionId)
deriving DecidableEq, Repr

/-- The wording of a misuse. -/
def Misuse.message : Misuse → String
  | .inputRefused id => "transaction " ++ id.render ++ " no longer accepts input"
  | .declarationRefused id => "transaction " ++ id.render ++ " no longer accepts declarations"
  | .invalidTransition id source target =>
    "invalid transition of transaction " ++ id.render ++ ": " ++ source.describe ++ " -> " ++
      target.describe
  | .uncommittedEntry => ""
  | .alreadyCollecting => "a transaction is still collecting input"
  | .uncommittedRun id => "transaction " ++ id.render ++ " is not committed"

/-- One unit of compilation. -/
structure Transaction where
  id : TransactionId
  state : TransactionState
  /-- In the order of declaration. -/
  declarations : List DeclarationId
  options : TransactionOptions
  /-- The declaration that asked for this transaction, if one did. -/
  origin : Option DeclarationId
  /-- All text so far. -/
  source : String
  /-- The function made up for wrapped input. -/
  entry : Option String
  /-- The reports kept at the commit. -/
  diagnostics : List Diagnostic
deriving DecidableEq, Repr

namespace Transaction

/-- A transaction that has collected nothing. -/
def new (id : TransactionId) (options : TransactionOptions) : Transaction :=
  { id, state := .collecting, declarations := [], options, origin := none, source := "",
    entry := none, diagnostics := [] }

/-- Whether nothing was declared. -/
def isEmpty (transaction : Transaction) : Bool := transaction.declarations.isEmpty

/-- Continues the text. -/
def appendSource (transaction : Transaction) (text : String) : Except Misuse Transaction :=
  if transaction.state = .collecting then
    .ok { transaction with source := Input.joinContinuation transaction.source text }
  else
    .error (.inputRefused transaction.id)

/-- Adds a declaration. -/
def addDeclaration (transaction : Transaction) (declaration : DeclarationId) :
    Except Misuse Transaction :=
  if transaction.state = .collecting then
    .ok { transaction with declarations := transaction.declarations ++ [declaration] }
  else
    .error (.declarationRefused transaction.id)

/-- Adds several declarations in order. -/
def addDeclarations (transaction : Transaction) :
    List DeclarationId → Except Misuse Transaction
  | [] => .ok transaction
  | declaration :: rest =>
    match transaction.addDeclaration declaration with
    | .error misuse => .error misuse
    | .ok extended => addDeclarations extended rest

def moveTo (transaction : Transaction) (next : TransactionState) : Except Misuse Transaction :=
  if transaction.state.canBecome next then
    .ok { transaction with state := next }
  else
    .error (.invalidTransition transaction.id transaction.state next)

/-- Sets the declaration that asked for the transaction. -/
def withOrigin (transaction : Transaction) (origin : Option DeclarationId) : Transaction :=
  { transaction with origin }

/-- Sets the function made up for wrapped input. -/
def withEntry (transaction : Transaction) (entry : Option String) : Transaction :=
  { transaction with entry }

/-- Sets the kept reports. -/
def withDiagnostics (transaction : Transaction) (diagnostics : List Diagnostic) : Transaction :=
  { transaction with diagnostics }

end Transaction

end IncrementalC
