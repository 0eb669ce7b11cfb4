import MinotariWallet.Transactions.Manager

set_option autoImplicit false

/-! # `transactions/monitor.rs`

One monitoring cycle of an account, from the query for its unfinished transactions on. The update of
the displayed confirmations before it is a program of its own. -/

namespace MinotariWallet

open Sql Exec

def maxBroadcastAttempts : Nat := 10

structure TransactionMonitor where
  accountId : AccountId
  currentChainHeight : Nat
  requiredConfirmations : Nat
  webhookConfig : Option WebhookTriggerConfig
deriving DecidableEq

structure PendingTransactionsByStatus where
  completed : List CompletedTransactionRow
  broadcast : List CompletedTransactionRow
  minedUnconfirmed : List CompletedTransactionRow
deriving DecidableEq

def PendingTransactionsByStatus.fromTransactions (transactions : List CompletedTransactionRow) :
    PendingTransactionsByStatus where
  completed := transactions.filter (·.status == .completed)
  broadcast := transactions.filter (·.status == .broadcast)
  minedUnconfirmed := transactions.filter (·.status == .minedUnconfirmed)

/-- A cycle, with the transactions still to look at; the head of the first list is the current one
    where a state is about one transaction. -/
inductive MonitorState where
  | list
  | rebroadcast (todo : PendingTransactionsByStatus)
  | submit (tx : CompletedTransactionRow) (retries : Nat) (todo : PendingTransactionsByStatus)
  | await (tx : CompletedTransactionRow) (retries messageId : Nat)
      (todo : PendingTransactionsByStatus)
  | markRejected (tx : CompletedTransactionRow) (reason : String)
      (todo : PendingTransactionsByStatus)
  | unlock (tx : CompletedTransactionRow) (reason : String) (todo : PendingTransactionsByStatus)
  | recordRejected (tx : CompletedTransactionRow) (reason : String)
      (todo : PendingTransactionsByStatus)
  | markBroadcasted (tx : CompletedTransactionRow) (todo : PendingTransactionsByStatus)
  | recordBroadcast (tx : CompletedTransactionRow) (todo : PendingTransactionsByStatus)
  | checkMining (todo : PendingTransactionsByStatus)
  | markMined (tx : CompletedTransactionRow) (blockHeight : Nat) (blockHash : FixedHash)
      (todo : PendingTransactionsByStatus)
  | recordMined (tx : CompletedTransactionRow) (blockHeight : Nat)
      (todo : PendingTransactionsByStatus)
  | checkConfirmation (todo : PendingTransactionsByStatus)
  | recordConfirmed (tx : CompletedTransactionRow) (minedHeight : Nat)
      (todo : PendingTransactionsByStatus)
  | ok
  | failed (e : TransactionError)
deriving DecidableEq

namespace TransactionMonitor

/-- `determine_status_from_confirmations`. -/
def determineStatusFromConfirmations (m : TransactionMonitor) (confirmations : Nat) :
    TransactionDisplayStatus :=
  if m.requiredConfirmations ≤ confirmations then .confirmed
  else if 0 < confirmations then .unconfirmed
  else .pending

/-- The transaction with the confirmations it has now. -/
def withConfirmations (m : TransactionMonitor) (displayedTx : DisplayedTransaction) :
    DisplayedTransaction :=
  let newConfirmations := m.currentChainHeight - displayedTx.blockchain.blockHeight
  { displayedTx with
    blockchain := { displayedTx.blockchain with confirmations := newConfirmations }
    status :=
      if displayedTx.status = .pending ∨ displayedTx.status = .unconfirmed then
        m.determineStatusFromConfirmations newConfirmations
      else displayedTx.status }

/-- `TransactionMonitor::update_displayed_transaction_confirmations`. -/
def updateDisplayedTransactionConfirmations (m : TransactionMonitor) :
    DbM (List DisplayedTransaction) := do
  let transactionsNeedingUpdate ← query
    (·.getDisplayedTransactionsNeedingConfirmationUpdate m.accountId)
  transactionsNeedingUpdate.foldlM (fun updated displayedTx =>
    let tx := m.withConfirmations displayedTx
    if tx.blockchain.confirmations = displayedTx.blockchain.confirmations then pure updated
    else do
      update (·.updateDisplayedTransactionConfirmations tx)
      pure (updated ++ [tx])) []

def persistEvent (m : TransactionMonitor) (event : WalletEvent) (now : Timestamp) : DbM Unit := do
  let eventId ← insert (·.insertWalletEvent m.accountId event)
  triggerWebhooks m.accountId [(eventId, event)] m.webhookConfig now

/-- What the branches for a rejected transaction record after the unlock. -/
def persistRejected (m : TransactionMonitor) (txId : TxId) (event : WalletEvent)
    (now : Timestamp) : DbM Unit := do
  let _ ← markDisplayedTransactionRejected txId
  m.persistEvent event now

theorem persistEvent_keeps (m : TransactionMonitor) (event : WalletEvent) (now : Timestamp) :
    Keeps Db.ledger (m.persistEvent event now) :=
  Keeps.bind (Keeps.insert (fun _ => rfl)) (fun _ => triggerWebhooks_keeps _ _ _ _)

theorem markDisplayedTransactionRejected_keeps (txId : TxId) :
    Keeps Db.ledger (markDisplayedTransactionRejected txId) := by
  refine Keeps.bind Keeps.query (fun row => ?_)
  cases row with
  | none => exact Keeps.pure
  | some row => exact Keeps.bind (Keeps.update (fun _ => rfl)) (fun _ => Keeps.pure)

theorem persistRejected_keeps (m : TransactionMonitor) (txId : TxId) (event : WalletEvent)
    (now : Timestamp) : Keeps Db.ledger (m.persistRejected txId event now) :=
  Keeps.bind (markDisplayedTransactionRejected_keeps txId) (fun _ => m.persistEvent_keeps event now)

/-- A step that records; when it fails the cycle ends with the error. -/
def recording (db : Db) (x : DbM Unit) (h : Keeps Db.ledger x) (st : MonitorState) :
    Option (Statement × MonitorState) :=
  some (.record x h, match x ⟨db, none⟩ with
    | .ok _ _ => st
    | .error e _ => .failed (.db e))

def rejectedEvent (m : TransactionMonitor) (tx : CompletedTransactionRow) (reason : String) :
    WalletEvent where
  accountId := m.accountId
  eventType := .transactionRejected tx.id reason
  description :=
    let id := tx.id
    if tx.broadcastAttempts ≥ maxBroadcastAttempts then
      s!"Transaction {id} exceeded broadcast attempts"
    else s!"Transaction {id} rejected"

def broadcastEvent (m : TransactionMonitor) (tx : CompletedTransactionRow) : WalletEvent where
  accountId := m.accountId
  eventType := .transactionBroadcast tx.id tx.kernelExcess
  description :=
    let id := tx.id
    s!"Transaction {id} broadcast"

def minedEvent (m : TransactionMonitor) (tx : CompletedTransactionRow) (blockHeight : Nat) :
    WalletEvent where
  accountId := m.accountId
  eventType := .transactionUnconfirmed tx.id blockHeight 0
  description :=
    let id := tx.id
    s!"Transaction {id} mined at height {blockHeight}"

def confirmedEvent (m : TransactionMonitor) (tx : CompletedTransactionRow) (minedHeight : Nat) :
    WalletEvent where
  accountId := m.accountId
  eventType := .transactionConfirmed tx.id minedHeight m.currentChainHeight
  description :=
    let id := tx.id
    s!"Transaction {id} confirmed"

end TransactionMonitor

open TransactionMonitor

/-- The branch of `rebroadcast_completed_transactions` for the result of `broadcast_transaction`. -/
def MonitorState.ofResponse (tx : CompletedTransactionRow) (todo : PendingTransactionsByStatus) :
    Except String TxSubmissionResponse → MonitorState
  | .error e => .markRejected tx s!"Broadcast failed: {e}" todo
  | .ok response =>
    if response.accepted || response.rejectionReason == .alreadyMined then .markBroadcasted tx todo
    else .markRejected tx ("Transaction rejected: " ++ response.rejectionReason.toString) todo

/-- `submit` and `await` are steps with the network, not with the database. -/
def MonitorState.next (env : TransactionEnv) (ch : Choice) (db : Db) (m : TransactionMonitor) :
    MonitorState → Option (Statement × MonitorState)
  | .list =>
    some (.read, .rebroadcast (.fromTransactions (db.getPendingCompletedTransactions m.accountId)))
  | .rebroadcast todo =>
    match todo.completed with
    | [] => some (.read, .checkMining todo)
    | tx :: rest =>
      if tx.broadcastAttempts ≥ maxBroadcastAttempts then
        some (.read, .markRejected tx s!"Exceeded {maxBroadcastAttempts} broadcast attempts"
          { todo with completed := rest })
      else some (.read, .submit tx maxRetries { todo with completed := rest })
  | .markRejected tx reason todo =>
    some (.markCompletedTransactionAsRejected tx.id reason ch.now, .unlock tx reason todo)
  | .unlock tx reason todo =>
    some (.unlockOutputsForRequest tx.pendingTxId, .recordRejected tx reason todo)
  | .recordRejected tx reason todo =>
    recording db _ (m.persistRejected_keeps tx.id (m.rejectedEvent tx reason) ch.now)
      (.rebroadcast todo)
  | .markBroadcasted tx todo =>
    some (.markCompletedTransactionAsBroadcasted tx.id (tx.broadcastAttempts + 1) ch.now,
      .recordBroadcast tx todo)
  | .recordBroadcast tx todo =>
    recording db _ (m.persistEvent_keeps (m.broadcastEvent tx) ch.now) (.rebroadcast todo)
  | .checkMining todo =>
    match todo.broadcast with
    | [] => some (.read, .checkConfirmation todo)
    | tx :: rest =>
      match ch.minedIn with
      | .error e => some (.read, .failed (.anyhow e))
      | .ok none => some (.read, .checkMining { todo with broadcast := rest })
      | .ok (some (blockHeight, blockHash)) =>
        some (.read, .markMined tx blockHeight blockHash { todo with broadcast := rest })
  | .markMined tx blockHeight blockHash todo =>
    some (.markCompletedTransactionAsMinedUnconfirmed tx.id (asI64 blockHeight) blockHash ch.now,
      .recordMined tx blockHeight todo)
  | .recordMined tx blockHeight todo =>
    recording db _ (m.persistEvent_keeps (m.minedEvent tx blockHeight) ch.now) (.checkMining todo)
  | .checkConfirmation todo =>
    match todo.minedUnconfirmed with
    | [] => some (.read, .ok)
    | tx :: rest =>
      let todo := { todo with minedUnconfirmed := rest }
      match tx.minedHeight with
      | none => some (.read, .checkConfirmation todo)
      | some h =>
        if m.requiredConfirmations ≤ m.currentChainHeight - asU64 h then
          match tx.minedBlockHash, tx.sentOutputHash with
          | none, _ => some (.read, .failed (.anyhow
              ("Block hash missing for a mined tx: " ++ toString tx.id)))
          | _, none => some (.read, .failed (.anyhow
              ("Sent output hash missing for a mined tx: " ++ toString tx.id)))
          | some blockHash, some outputHash =>
            some (.markCompletedTransactionAsConfirmed tx.id (asI64 m.currentChainHeight)
              (env.generatePaymentReference blockHash outputHash) ch.now,
              .recordConfirmed tx (asU64 h) todo)
        else some (.read, .checkConfirmation todo)
  | .recordConfirmed tx minedHeight todo =>
    recording db _ (m.persistEvent_keeps (m.confirmedEvent tx minedHeight) ch.now)
      (.checkConfirmation todo)
  | .submit _ _ _ => none
  | .await _ _ _ _ => none
  | .ok => none
  | .failed _ => none

end MinotariWallet
