import MinotariWallet.Model.Schema

set_option autoImplicit false

/-! # `db/completed_transactions.rs` -/

namespace MinotariWallet

open Sql

/-- Mined rows of the account at or above `height`, as SQL compares the columns. -/
def CompletedTransactionRow.minedFrom (accountId : AccountId) (height : Nat)
    (c : CompletedTransactionRow) : Bool :=
  c.accountId == accountId && (c.status == .minedUnconfirmed || c.status == .minedConfirmed)
    && c.minedHeight.any (fun h => decide (asI64 height ≤ h))

/-- A row back in `Completed`, its mining and broadcast data cleared. -/
def CompletedTransactionRow.reset (now : Timestamp) (c : CompletedTransactionRow) :
    CompletedTransactionRow :=
  { c with
    status := .completed
    minedHeight := none
    minedBlockHash := none
    confirmationHeight := none
    sentPayref := none
    broadcastAttempts := 0
    updatedAt := now }

namespace Db

/-- `create_completed_transaction`: the id is the primary key, and `pending_tx_id` refers to a
    pending transaction. -/
def createCompletedTransaction (db : Db) (accountId : AccountId) (pendingTxId : RequestId)
    (serializedTransaction : Transaction) (sentOutputHash : Option FixedHash) (txId : TxId)
    (now : Timestamp) : Except WalletDbError Db :=
  if db.pendingTransactions.exists? (fun p => p.id == pendingTxId) then
    match db.completedTransactions.insert? {
      id := txId
      accountId, pendingTxId
      status := .completed
      kernelExcess := serializedTransaction.kernelExcess
      serializedTransaction, sentOutputHash
      createdAt := now
      updatedAt := now } with
    | none => .error (.rusqlite "UNIQUE constraint failed: completed_transactions.id")
    | some completedTransactions => .ok { db with completedTransactions }
  else .error (.rusqlite "FOREIGN KEY constraint failed")

/-- An `UPDATE` of the row `txId`. -/
def updateCompletedTransaction (db : Db) (txId : TxId)
    (f : CompletedTransactionRow → CompletedTransactionRow)
    (hf : ∀ c, (f c).id = c.id := by intro _; rfl) : Db :=
  { db with
    completedTransactions := db.completedTransactions.updateWhere (fun c => c.id == txId) f hf }

/-- `get_pending_completed_transactions`; rows are created in this order. -/
def getPendingCompletedTransactions (db : Db) (accountId : AccountId) :
    List CompletedTransactionRow :=
  db.completedTransactions.select (fun c => c.accountId == accountId
    && c.status != .minedConfirmed && c.status != .rejected && c.status != .canceled)

def markCompletedTransactionAsBroadcasted (db : Db) (txId : TxId) (attempts : Nat)
    (now : Timestamp) : Db :=
  db.updateCompletedTransaction txId (fun c => { c with
    status := .broadcast, broadcastAttempts := attempts, updatedAt := now })

def markCompletedTransactionAsMinedUnconfirmed (db : Db) (txId : TxId) (blockHeight : Int)
    (blockHash : FixedHash) (now : Timestamp) : Db :=
  db.updateCompletedTransaction txId (fun c => { c with
    status := .minedUnconfirmed
    minedHeight := some blockHeight
    minedBlockHash := some blockHash
    updatedAt := now })

def markCompletedTransactionAsConfirmed (db : Db) (txId : TxId) (confirmationHeight : Int)
    (sentPayref : PaymentReference) (now : Timestamp) : Db :=
  db.updateCompletedTransaction txId (fun c => { c with
    status := .minedConfirmed
    confirmationHeight := some confirmationHeight
    sentPayref := some sentPayref
    updatedAt := now })

def markCompletedTransactionAsRejected (db : Db) (txId : TxId) (rejectReason : String)
    (now : Timestamp) : Db :=
  db.updateCompletedTransaction txId (fun c => { c with
    status := .rejected, lastRejectedReason := some rejectReason, updatedAt := now })

def resetMinedCompletedTransactionsFromHeight (db : Db) (accountId : AccountId)
    (reorgHeight : Nat) (now : Timestamp) : Db :=
  { db with
    completedTransactions := db.completedTransactions.updateWhere
      (CompletedTransactionRow.minedFrom accountId reorgHeight)
      (CompletedTransactionRow.reset now) }

end Db

end MinotariWallet
