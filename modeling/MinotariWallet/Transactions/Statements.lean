import MinotariWallet.Db.CompletedTransactions
import MinotariWallet.Db.PendingTransactions
import MinotariWallet.Scan.Rules
import MinotariWallet.Transactions.InputSelector

set_option autoImplicit false

/-! # Statements of the transaction code

The calls of `transactions` run concurrently, each on a connection of its own, and their database
statements interleave. `Statement` names what one step of a call does to the database; a database
transaction is one step. -/

namespace MinotariWallet

open Sql Exec

/-- The arguments of `create_pending_transaction`. -/
structure NewPendingTransaction where
  id : RequestId
  idempotencyKey : IdempotencyKey
  accountId : AccountId
  selection : UtxoSelection
  expiresAt : Timestamp
deriving DecidableEq

/-- The arguments of `create_completed_transaction`. -/
structure NewCompletedTransaction where
  accountId : AccountId
  pendingTxId : RequestId
  serializedTransaction : Transaction
  sentOutputHash : Option FixedHash
  txId : TxId
  now : Timestamp
deriving DecidableEq

inductive Statement where
  /-- A statement that only reads. -/
  | read
  /-- Statements that record what happened (events, webhooks, displayed transactions), with the
      proof that the ledger stays as it is. No other call reads these rows, and events are written
      by the scan task only, so the two statements of `persist_event` are one step. -/
  | record (x : DbM Unit) (h : Keeps Db.ledger x)
  | createPendingTransaction (new : NewPendingTransaction)
  /-- The database transaction of `FundLocker::lock`. -/
  | createPendingTransactionAndLock (new : NewPendingTransaction)
  | lockOutput (outputId : Id) (lockedByRequestId : RequestId) (lockedAt : Timestamp)
  | updatePendingTransactionStatus (id : RequestId) (status : PendingTransactionStatus)
  | unlockOutputsForRequest (lockedByRequestId : RequestId)
  /-- The database transaction of `unlock_expired_transactions` for one request. -/
  | expireAndUnlock (id : RequestId)
  | createCompletedTransaction (new : NewCompletedTransaction)
  | markCompletedTransactionAsRejected (txId : TxId) (reason : String) (now : Timestamp)
  | markCompletedTransactionAsBroadcasted (txId : TxId) (attempts : Nat) (now : Timestamp)
  | markCompletedTransactionAsMinedUnconfirmed (txId : TxId) (blockHeight : Int)
      (blockHash : FixedHash) (now : Timestamp)
  | markCompletedTransactionAsConfirmed (txId : TxId) (confirmationHeight : Int)
      (sentPayref : PaymentReference) (now : Timestamp)

namespace Db

def createPending (db : Db) (new : NewPendingTransaction) : Except WalletDbError Db :=
  db.createPendingTransaction new.id new.idempotencyKey new.accountId
    new.selection.requiresChangeOutput new.selection.totalValue new.selection.feeWithoutChange
    new.selection.feeWithChange new.expiresAt

def createCompleted (db : Db) (new : NewCompletedTransaction) : Except WalletDbError Db :=
  db.createCompletedTransaction new.accountId new.pendingTxId new.serializedTransaction
    new.sentOutputHash new.txId new.now

/-- The loop of `lock_output` statements over the selected outputs. -/
def lockOutputs (db : Db) (utxos : List DbWalletOutput) (lockedByRequestId : RequestId)
    (lockedAt : Timestamp) : Db :=
  utxos.foldl (fun db utxo => db.lockOutput utxo.id lockedByRequestId lockedAt) db

/-- `create_pending_transaction` and the loop of `lock_output`, in one database transaction. -/
def createPendingAndLock (db : Db) (new : NewPendingTransaction) : Except WalletDbError Db :=
  (db.createPending new).map (fun db =>
    db.lockOutputs new.selection.utxos new.id new.expiresAt)

end Db

/-- The database after a statement; one that fails leaves it as it was. -/
def Statement.apply (db : Db) : Statement → Db
  | .read => db
  | .record x _ => (after x ⟨db, none⟩).store
  | .createPendingTransaction new => (db.createPending new).toOption.getD db
  | .createPendingTransactionAndLock new => (db.createPendingAndLock new).toOption.getD db
  | .lockOutput outputId lockedByRequestId lockedAt =>
    db.lockOutput outputId lockedByRequestId lockedAt
  | .updatePendingTransactionStatus id status => db.updatePendingTransactionStatus id status
  | .unlockOutputsForRequest lockedByRequestId => db.unlockOutputsForRequest lockedByRequestId
  | .expireAndUnlock id =>
    (db.updatePendingTransactionStatus id .expired).unlockOutputsForRequest id
  | .createCompletedTransaction new => (db.createCompleted new).toOption.getD db
  | .markCompletedTransactionAsRejected txId reason now =>
    db.markCompletedTransactionAsRejected txId reason now
  | .markCompletedTransactionAsBroadcasted txId attempts now =>
    db.markCompletedTransactionAsBroadcasted txId attempts now
  | .markCompletedTransactionAsMinedUnconfirmed txId blockHeight blockHash now =>
    db.markCompletedTransactionAsMinedUnconfirmed txId blockHeight blockHash now
  | .markCompletedTransactionAsConfirmed txId confirmationHeight sentPayref now =>
    db.markCompletedTransactionAsConfirmed txId confirmationHeight sentPayref now

/-- What the environment decides in one step of a call: the time, the ids it draws, and what the
    functions outside the database return. -/
structure Choice where
  now : Timestamp := 0
  uuid : RequestId := 0
  /-- The same UUID as text, where it is used for a key. -/
  uuidKey : IdempotencyKey := ""
  txId : TxId := 0
  external : Except String Unit := .ok ()
  /-- What the node says about a kernel: the block that has it. -/
  minedIn : Except String (Option (Nat × FixedHash)) := .ok none

end MinotariWallet
