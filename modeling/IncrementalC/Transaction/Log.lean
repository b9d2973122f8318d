import IncrementalC.Transaction.Basic

/-!
Contract: the log of committed transactions.

The numbers of transactions are kept in 64 bits, and are taken here not to run out.

Owns:
- the numbering of transactions;
- the committed transactions, in the order of their numbers;
- adding, finding and removing an entry.

Does not own: what a removed transaction leaves behind elsewhere.
-/

namespace IncrementalC

/-- The committed transactions by ascending number, and the next number to give. -/
structure TransactionLog where
  entries : List Transaction
  nextNumber : Nat
deriving DecidableEq, Repr

namespace TransactionLog

/-- A log without entries. -/
def empty : TransactionLog := ⟨[], 0⟩

/-- Hands out the next number. -/
def allocate (log : TransactionLog) : TransactionId × TransactionLog :=
  (⟨log.nextNumber⟩, { log with nextNumber := log.nextNumber + 1 })

/-- Places a transaction among entries of ascending number, in the stead of one with
the same number. -/
def place (transaction : Transaction) : List Transaction → List Transaction
  | [] => [transaction]
  | head :: tail =>
    if head.id.number < transaction.id.number then head :: place transaction tail
    else if head.id = transaction.id then transaction :: tail
    else transaction :: head :: tail

/-- Adds a committed transaction. -/
def append (log : TransactionLog) (transaction : Transaction) :
    Except Misuse TransactionLog :=
  if transaction.state = .committed then
    .ok { log with entries := place transaction log.entries }
  else
    .error .uncommittedEntry

/-- The entry with a number. -/
def get? (log : TransactionLog) (id : TransactionId) : Option Transaction :=
  log.entries.find? fun transaction => transaction.id = id

/-- Whether there is an entry with a number. -/
def contains (log : TransactionLog) (id : TransactionId) : Bool := (log.get? id).isSome

/-- The log without the entry with a number. -/
def erase (log : TransactionLog) (id : TransactionId) : TransactionLog :=
  { log with entries := log.entries.filter fun transaction => transaction.id ≠ id }

/-- The entry with the smallest number. -/
def first? (log : TransactionLog) : Option Transaction := log.entries.head?

/-- The entry with the largest number. -/
def last? (log : TransactionLog) : Option Transaction := log.entries.getLast?

/-- The numbers of the entries, ascending. -/
def ids (log : TransactionLog) : List TransactionId := log.entries.map Transaction.id

end TransactionLog

end IncrementalC
