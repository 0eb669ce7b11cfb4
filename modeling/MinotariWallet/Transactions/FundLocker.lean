import MinotariWallet.Transactions.Statements

set_option autoImplicit false

/-! # `transactions/fund_locker.rs` and `tasks/unlocker.rs`

The states of a call are named after the statement it runs next. -/

namespace MinotariWallet

open Sql

structure LockFundsRequest where
  selector : InputSelector
  idempotencyKey : Option IdempotencyKey
  secondsToLockUtxos : Nat
deriving DecidableEq

structure LockFundsResult where
  utxos : List WalletOutput
  requiresChangeOutput : Bool
  totalValue : MicroMinotari
  feeWithoutChange : MicroMinotari
  feeWithChange : MicroMinotari
deriving DecidableEq

/-- A call of `FundLocker::lock`. The pending transaction and the stored outputs behind the result
    are kept beside it. -/
inductive LockState where
  | find
  | fetchExisting (pending : PendingTransaction)
  | selecting (s : Selecting)
  | transaction (selection : UtxoSelection)
  | ok (pendingTxId : RequestId) (utxos : List DbWalletOutput) (result : LockFundsResult)
  | failed (e : TransactionError)
deriving DecidableEq

def LockState.next (env : TransactionEnv) (ch : Choice) (db : Db) (req : LockFundsRequest) :
    LockState → Option (Statement × LockState)
  | .find =>
    match req.idempotencyKey.bind (fun key =>
        db.findPendingTransactionByIdempotencyKey key req.selector.accountId) with
    | some pending => some (.read, .fetchExisting pending)
    | none => some (.read, .selecting .tip)
  | .fetchExisting pending =>
    let utxos := db.fetchOutputsByLockRequestId pending.id
    some (.read, .ok pending.id utxos {
      utxos := utxos.map (·.output)
      requiresChangeOutput := pending.requiresChangeOutput
      totalValue := pending.totalValue
      feeWithoutChange := pending.feeWithoutChange
      feeWithChange := pending.feeWithChange })
  | .selecting s =>
    match req.selector.step env db s with
    | .error e => some (.read, .failed e)
    | .ok (.inl s') => some (.read, .selecting s')
    | .ok (.inr selection) => some (.read, .transaction selection)
  | .transaction selection =>
    let new : NewPendingTransaction := {
      id := ch.uuid
      idempotencyKey := req.idempotencyKey.getD ch.uuidKey
      accountId := req.selector.accountId
      selection
      expiresAt := ch.now + asI64 req.secondsToLockUtxos }
    match db.createPending new with
    | .error e => some (.createPendingTransactionAndLock new, .failed (.db e))
    | .ok _ => some (.createPendingTransactionAndLock new, .ok new.id selection.utxos {
        utxos := selection.utxos.map (·.output)
        requiresChangeOutput := selection.requiresChangeOutput
        totalValue := selection.totalValue
        feeWithoutChange := selection.feeWithoutChange
        feeWithChange := selection.feeWithChange })
  | .ok _ _ _ => none
  | .failed _ => none

/-- A run of `TransactionUnlocker::unlock_expired_transactions`. -/
inductive UnlockerState where
  | list
  | next (expiredTxs : List RequestId)
deriving DecidableEq

def UnlockerState.step (ch : Choice) (db : Db) : UnlockerState → Option (Statement × UnlockerState)
  | .list => some (.read, .next (db.findExpiredPendingTransactions ch.now))
  | .next [] => none
  | .next (id :: rest) => some (.expireAndUnlock id, .next rest)

end MinotariWallet
