import MinotariWallet.Db.Outputs

set_option autoImplicit false

/-! # `db/pending_transactions.rs` -/

namespace MinotariWallet

open Sql

structure PendingTransaction where
  id : RequestId
  accountId : AccountId
  status : PendingTransactionStatus
  requiresChangeOutput : Bool
  totalValue : MicroMinotari
  feeWithoutChange : MicroMinotari
  feeWithChange : MicroMinotari
  expiresAt : Timestamp
deriving DecidableEq

/-- The rows of an account and key; the table has at most one. -/
def PendingTransactionRow.hasKey (key : IdempotencyKey) (accountId : AccountId)
    (p : PendingTransactionRow) : Bool :=
  p.idempotencyKey == key && p.accountId == accountId

/-- `expires_at < CURRENT_TIMESTAMP`. -/
def PendingTransactionRow.expired (now : Timestamp) (p : PendingTransactionRow) : Bool :=
  decide (p.expiresAt < now)

namespace Db

/-- `create_pending_transaction` under the fresh id `id`. A second row for the account and key, or
    a taken id, violates a constraint. -/
def createPendingTransaction (db : Db) (id : RequestId) (idempotencyKey : IdempotencyKey)
    (accountId : AccountId) (requiresChangeOutput : Bool)
    (totalValue feeWithoutChange feeWithChange : MicroMinotari) (expiresAt : Timestamp) :
    Except WalletDbError Db :=
  let duplicate : WalletDbError := .duplicateEntry
    s!"Pending transaction with idempotency key '{idempotencyKey}' already exists"
  if db.pendingTransactions.exists? (PendingTransactionRow.hasKey idempotencyKey accountId) then
    .error duplicate
  else
    match db.pendingTransactions.insert? {
      id, accountId, idempotencyKey
      status := .pending
      requiresChangeOutput
      totalValue := asI64 totalValue
      feeWithoutChange := asI64 feeWithoutChange
      feeWithChange := asI64 feeWithChange
      expiresAt } with
    | none => .error duplicate
    | some pendingTransactions => .ok { db with pendingTransactions }

def findExpiredPendingTransactions (db : Db) (now : Timestamp) : List RequestId :=
  (db.pendingTransactions.select (fun p => p.status == .pending && p.expired now)).map (·.id)

/-- `update_pending_transaction_status`, whatever the status was. -/
def updatePendingTransactionStatus (db : Db) (id : RequestId) (status : PendingTransactionStatus) :
    Db :=
  { db with
    pendingTransactions := db.pendingTransactions.updateWhere (fun p => p.id == id)
      (fun p => { p with status }) }

def findPendingTransactionByIdempotencyKey (db : Db) (idempotencyKey : IdempotencyKey)
    (accountId : AccountId) : Option PendingTransaction :=
  (db.pendingTransactions.find? (fun p => p.hasKey idempotencyKey accountId
    && p.status == .pending)).map (fun p => {
      id := p.id
      accountId := p.accountId
      status := p.status
      requiresChangeOutput := p.requiresChangeOutput
      totalValue := asU64 p.totalValue
      feeWithoutChange := asU64 p.feeWithoutChange
      feeWithChange := asU64 p.feeWithChange
      expiresAt := p.expiresAt })

def checkIfTransactionWasAlreadyCompletedByIdempotencyKey (db : Db)
    (idempotencyKey : IdempotencyKey) (accountId : AccountId) : Bool :=
  db.pendingTransactions.exists? (fun p => p.hasKey idempotencyKey accountId
    && p.status == .completed)

/-- `check_if_transaction_is_expired_by_idempotency_key`: only a row still `Pending` counts. -/
def checkIfTransactionIsExpiredByIdempotencyKey (db : Db) (idempotencyKey : IdempotencyKey)
    (accountId : AccountId) (now : Timestamp) : Bool :=
  db.pendingTransactions.exists? (fun p => p.hasKey idempotencyKey accountId
    && p.status == .pending && p.expired now)

/-- The `UPDATE` of `cancel_pending_transactions_by_ids`, whatever the status was. -/
def cancelPendingTransactionsByIds (db : Db) (ids : List RequestId)
    (status : PendingTransactionStatus) : Db :=
  { db with
    pendingTransactions := db.pendingTransactions.updateWhere (fun p => ids.contains p.id)
      (fun p => { p with status }) }

end Db

/-- `cancel_pending_transactions_by_ids`; its caller makes the same test for no ids. -/
def cancelPendingTransactionsByIds (ids : List RequestId) (status : PendingTransactionStatus) :
    DbM Unit :=
  if ids.isEmpty then pure () else Exec.update (·.cancelPendingTransactionsByIds ids status)

end MinotariWallet
