import MinotariWallet.Db.CompletedTransactions

set_option autoImplicit false

/-! # `db/displayed_transactions.rs` and `db/payref_history.rs` -/

namespace MinotariWallet

open Sql Exec

/-- Rows of the account at or above `height`, as SQL compares the columns. -/
def DisplayedTransactionRow.fromHeight (accountId : AccountId) (height : Nat)
    (d : DisplayedTransactionRow) : Bool :=
  d.accountId == accountId && decide (asI64 height ≤ d.blockHeight)

namespace Db

/-- `insert_displayed_transaction`. A row that is already there gets the new status, JSON and
    payment references, and keeps its other columns. -/
def insertDisplayedTransaction (db : Db) (transaction : DisplayedTransaction) : Db :=
  match db.displayedTransactions.insert? {
    id := transaction.id
    accountId := transaction.details.accountId
    direction := transaction.direction
    source := transaction.source
    status := transaction.status
    amount := asI64 transaction.amount
    blockHeight := asI64 transaction.blockchain.blockHeight
    timestamp := transaction.blockchain.timestamp
    transaction
    payref := some transaction.details.sentPayrefs } with
  | some displayedTransactions => { db with displayedTransactions }
  | none => { db with
      displayedTransactions := db.displayedTransactions.updateWhere (fun d => d.id == transaction.id)
        (fun d => { d with
          status := transaction.status
          transaction
          payref := some transaction.details.sentPayrefs }) }

def updateDisplayedTransactionMined (db : Db) (tx : DisplayedTransaction) : Db :=
  { db with
    displayedTransactions := db.displayedTransactions.updateWhere (fun d => d.id == tx.id)
      (fun d => { d with
        status := tx.status
        blockHeight := asI64 tx.blockchain.blockHeight
        transaction := tx
        payref := some tx.details.sentPayrefs }) }

/-- `ORDER BY block_height DESC, timestamp DESC`. -/
def orderedDisplayedTransactions (db : Db) (p : DisplayedTransactionRow → Bool) :
    List DisplayedTransaction :=
  (orderByDesc (·.blockHeight) (orderByDesc (·.timestamp)
    (db.displayedTransactions.select p))).map (·.transaction)

def getDisplayedTransactionsFromHeight (db : Db) (accountId : AccountId) (fromHeight : Nat) :
    List DisplayedTransaction :=
  db.orderedDisplayedTransactions (DisplayedTransactionRow.fromHeight accountId fromHeight)

def getDisplayedTransactionsByStatus (db : Db) (accountId : AccountId)
    (status : TransactionDisplayStatus) : List DisplayedTransaction :=
  db.orderedDisplayedTransactions (fun d => d.accountId == accountId && d.status == status)

/-- The `UPDATE` of `mark_displayed_transactions_reorganized_and_return` for one row. -/
def setDisplayedTransactionStatus (db : Db) (id : TxId) (tx : DisplayedTransaction) : Db :=
  { db with
    displayedTransactions := db.displayedTransactions.updateWhere (fun d => d.id == id)
      (fun d => { d with status := tx.status, transaction := tx }) }

/-- `update_displayed_transaction_confirmations`: the same `UPDATE`. -/
def updateDisplayedTransactionConfirmations (db : Db) (transaction : DisplayedTransaction) : Db :=
  db.setDisplayedTransactionStatus transaction.id transaction

def getDisplayedTransactionsNeedingConfirmationUpdate (db : Db) (accountId : AccountId) :
    List DisplayedTransaction :=
  (db.displayedTransactions.select (fun d => d.accountId == accountId
    && (d.status == .pending || d.status == .unconfirmed))).map (·.transaction)

def savePayrefHistory (db : Db) (accountId : AccountId) (transactionId : TxId)
    (oldPayref : PaymentReference) (outputHash : Option FixedHash) (now : Timestamp) : Db :=
  { db with
    payrefHistory := db.payrefHistory.insert (fun id => {
      id, accountId, transactionId, oldPayref, outputHash, createdAt := now }) }

end Db

def markDisplayedTransactionsReorganizedAndReturn (accountId : AccountId) (fromHeight : Nat) :
    DbM (List DisplayedTransaction) := do
  let rowsToUpdate ← query (fun db => db.displayedTransactions.select (fun d =>
    d.fromHeight accountId fromHeight && d.status != .reorganized))
  rowsToUpdate.foldlM (fun updated row => do
    let tx := { row.transaction with status := .reorganized }
    update (·.setDisplayedTransactionStatus row.id tx)
    pure (updated ++ [tx])) []

def markDisplayedTransactionRejected (txId : TxId) : DbM (Option DisplayedTransaction) := do
  match ← query (·.displayedTransactions.get? txId) with
  | none => pure none
  | some row =>
    let tx := { row.transaction with status := .rejected }
    update (·.setDisplayedTransactionStatus txId tx)
    pure (some tx)

/-- `save_displayed_transaction_payrefs_before_reorg`. -/
def saveDisplayedTransactionPayrefsBeforeReorg (accountId : AccountId) (reorgHeight : Nat)
    (now : Timestamp) : DbM Unit := do
  let rows ← query (fun db => db.displayedTransactions.select (fun d =>
    d.fromHeight accountId reorgHeight && d.payref.isSome))
  rows.forM (fun row => (row.payref.getD []).forM (fun payref =>
    update (·.savePayrefHistory accountId row.id payref none now)))

/-- `save_completed_transaction_payrefs_before_reorg`. -/
def saveCompletedTransactionPayrefsBeforeReorg (accountId : AccountId) (reorgHeight : Nat)
    (now : Timestamp) : DbM Unit := do
  let rows ← query (fun db => db.completedTransactions.select (fun c =>
    c.minedFrom accountId reorgHeight && c.sentPayref.isSome))
  rows.forM (fun row => (row.sentPayref.toList).forM (fun payref =>
    update (·.savePayrefHistory accountId row.id payref row.sentOutputHash now)))

end MinotariWallet
