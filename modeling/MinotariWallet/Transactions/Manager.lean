import MinotariWallet.Transactions.Statements

set_option autoImplicit false

/-! # `transactions/manager.rs`

`start_new_transaction` and `finalize_transaction_and_broadcast`. The states of a call are named
after the statement it runs next; `expire` and `unlock` are the two statements of
`fail_and_unlock_pending_transaction`. -/

namespace MinotariWallet

open Sql Exec

structure Recipient where
  address : TariAddress
  amount : MicroMinotari
  paymentId : Option Memo := none
deriving DecidableEq

/-- The fields of `TransactionSender` that a call reads, and its arguments. -/
structure StartRequest where
  accountId : AccountId
  feePerGram : MicroMinotari := 5
  confirmationWindow : Nat
  idempotencyKey : IdempotencyKey
  recipient : Recipient
  secondsToLockUtxo : Nat
deriving DecidableEq

def StartRequest.selector (req : StartRequest) : InputSelector where
  accountId := req.accountId
  confirmationWindow := req.confirmationWindow
  amount := req.recipient.amount
  numOutputs := 1
  feePerGram := req.feePerGram
  estimatedOutputSize := none

/-- The `ProcessedTransaction` of a successful start, with the inputs and the id of the transaction
    it prepared. -/
structure PreparedTransaction where
  id : RequestId
  accountId : AccountId
  idempotencyKey : IdempotencyKey
  recipient : Recipient
  /-- Empty when the call resumed a pending transaction. -/
  selectedUtxos : List DbWalletOutput
  inputs : List DbWalletOutput
  txId : TxId
deriving DecidableEq

inductive StartState where
  | validate
  | find
  | selecting (expiresAt : Timestamp) (s : Selecting)
  | create (expiresAt : Timestamp) (selection : UtxoSelection)
  /-- In the loop of `lock_output`, with the outputs still to lock. -/
  | locking (id : RequestId) (expiresAt : Timestamp) (utxos todo : List DbWalletOutput)
  | fetch (id : RequestId)
  | build (id : RequestId) (selectedUtxos inputs : List DbWalletOutput)
  | expire (id : RequestId) (e : TransactionError)
  | unlock (id : RequestId) (e : TransactionError)
  | ok (prepared : PreparedTransaction)
  | failed (e : TransactionError)
deriving DecidableEq

/-- After the loop: the selected outputs are the inputs, or, when there are none, those that are
    locked for the request are read. -/
def StartState.afterLocking (id : RequestId) (utxos : List DbWalletOutput) : StartState :=
  if utxos.isEmpty then .fetch id else .build id utxos utxos

def StartState.next (env : TransactionEnv) (ch : Choice) (db : Db) (req : StartRequest) :
    StartState → Option (Statement × StartState)
  | .validate =>
    if db.checkIfTransactionWasAlreadyCompletedByIdempotencyKey req.idempotencyKey req.accountId then
      some (.read, .failed
        (.anyhow "A pending transaction with the same idempotency key already exists"))
    else match ch.external with
      | .error e => some (.read, .failed (.anyhow e))
      | .ok _ => some (.read, .find)
  | .find =>
    match db.findPendingTransactionByIdempotencyKey req.idempotencyKey req.accountId with
    | some pendingTx => some (.read, .fetch pendingTx.id)
    | none => some (.read, .selecting (ch.now + asI64 req.secondsToLockUtxo) .tip)
  | .selecting expiresAt s =>
    match req.selector.step env db s with
    | .error e => some (.read, .failed e)
    | .ok (.inl s') => some (.read, .selecting expiresAt s')
    | .ok (.inr selection) => some (.read, .create expiresAt selection)
  | .create expiresAt selection =>
    let new : NewPendingTransaction := {
      id := ch.uuid
      idempotencyKey := req.idempotencyKey
      accountId := req.accountId
      selection, expiresAt }
    match db.createPending new with
    | .error e => some (.createPendingTransaction new, .failed (.db e))
    | .ok _ => some (.createPendingTransaction new,
        if selection.utxos.isEmpty then .fetch new.id
        else .locking new.id expiresAt selection.utxos selection.utxos)
  | .locking id _ utxos [] => some (.read, .afterLocking id utxos)
  | .locking id expiresAt utxos (utxo :: rest) =>
    some (.lockOutput utxo.id id expiresAt,
      if rest.isEmpty then .afterLocking id utxos else .locking id expiresAt utxos rest)
  | .fetch id => some (.read, .build id [] (db.fetchOutputsByLockRequestId id))
  | .build id selectedUtxos inputs =>
    match ch.external with
    | .error e => some (.read, .expire id (.anyhow e))
    | .ok _ => some (.read, .ok {
        id
        accountId := req.accountId
        idempotencyKey := req.idempotencyKey
        recipient := req.recipient
        selectedUtxos, inputs
        txId := ch.txId })
  | .expire id e => some (.updatePendingTransactionStatus id .expired, .unlock id e)
  | .unlock id e => some (.unlockOutputsForRequest id, .failed e)
  | .ok _ => none
  | .failed _ => none

/-! ## Finalizing -/

/-- The `SignedOneSidedTransactionResult` for a prepared transaction. -/
structure SignedTransaction where
  txId : TxId
  transaction : Transaction
  sentOutputHash : Option FixedHash
  displayed : Except String DisplayedTransaction

/-- Signing keeps the id and the inputs. -/
def PreparedTransaction.sign (prepared : PreparedTransaction) (kernelExcess : FixedHash)
    (sentOutputHash : Option FixedHash) (displayed : Except String DisplayedTransaction) :
    SignedTransaction where
  txId := prepared.txId
  transaction := ⟨kernelExcess, prepared.inputs.map (·.output.outputHash)⟩
  sentOutputHash := sentOutputHash
  displayed := displayed

inductive TxSubmissionRejectionReason where
  | alreadyMined
  | other (reason : String)
deriving DecidableEq

def TxSubmissionRejectionReason.toString : TxSubmissionRejectionReason → String
  | .alreadyMined => "Already Mined"
  | .other reason => reason

structure TxSubmissionResponse where
  accepted : Bool
  rejectionReason : TxSubmissionRejectionReason
deriving DecidableEq

/-- How often `reqwest_retry` sends a request again. -/
def maxRetries : Nat := 3

inductive FinalizeState where
  | checkExpired
  | setExpired
  | setCompleted
  | createCompleted
  | connect
  /-- About to send the request, with the retries left. -/
  | submit (retries : Nat)
  /-- Waiting for the response to the request `messageId`. -/
  | await (retries messageId : Nat)
  | markRejected (reason : String) (e : TransactionError)
  | markBroadcasted
  | display
  | expire (e : TransactionError)
  | unlock (e : TransactionError)
  | ok
  | failed (e : TransactionError)
deriving DecidableEq

/-- The branch of `finalize_transaction_and_broadcast` for the result of `submit_transaction`. -/
def FinalizeState.ofResponse : Except String TxSubmissionResponse → FinalizeState
  | .error e =>
    .markRejected s!"Transaction submission failed: {e}"
      (.anyhow s!"Transaction submission failed: {e}")
  | .ok response =>
    if response.accepted then .markBroadcasted
    else if response.rejectionReason ≠ .alreadyMined then
      .markRejected response.rejectionReason.toString
        (.anyhow ("Transaction was not accepted by the network: "
          ++ response.rejectionReason.toString))
    else .display

theorem insertDisplayedTransaction_keeps (tx : DisplayedTransaction) :
    Keeps Db.ledger (Exec.update (·.insertDisplayedTransaction tx) : DbM Unit) :=
  Keeps.update (fun db => insertDisplayedTransaction_ledger db tx)

/-- `submit` and `await` are steps with the network, not with the database. -/
def FinalizeState.next (ch : Choice) (db : Db) (prepared : PreparedTransaction)
    (signed : SignedTransaction) : FinalizeState → Option (Statement × FinalizeState)
  | .checkExpired =>
    if db.checkIfTransactionIsExpiredByIdempotencyKey prepared.idempotencyKey prepared.accountId
        ch.now then some (.read, .setExpired)
    else some (.read, .setCompleted)
  | .setExpired =>
    some (.updatePendingTransactionStatus prepared.id .expired,
      .expire (.anyhow "The transaction has expired."))
  | .setCompleted =>
    match ch.external with
    | .error e => some (.read, .expire (.anyhow s!"Failed to serialize transaction: {e}"))
    | .ok _ => some (.updatePendingTransactionStatus prepared.id .completed, .createCompleted)
  | .createCompleted =>
    let new : NewCompletedTransaction := {
      accountId := prepared.accountId
      pendingTxId := prepared.id
      serializedTransaction := signed.transaction
      sentOutputHash := signed.sentOutputHash
      txId := signed.txId
      now := ch.now }
    match db.createCompleted new with
    | .error e => some (.createCompletedTransaction new, .expire (.db e))
    | .ok _ => some (.createCompletedTransaction new, .connect)
  | .connect =>
    match ch.external with
    | .error e => some (.read, .failed (.anyhow e))
    | .ok _ => some (.read, .submit maxRetries)
  | .markRejected reason e =>
    some (.markCompletedTransactionAsRejected signed.txId reason ch.now, .expire e)
  | .markBroadcasted =>
    some (.markCompletedTransactionAsBroadcasted signed.txId 1 ch.now, .display)
  | .display =>
    match signed.displayed with
    | .error e => some (.read, .failed (.anyhow e))
    | .ok tx => some (.record _ (insertDisplayedTransaction_keeps tx), .ok)
  | .expire e => some (.updatePendingTransactionStatus prepared.id .expired, .unlock e)
  | .unlock e => some (.unlockOutputsForRequest prepared.id, .failed e)
  | .submit _ => none
  | .await _ _ => none
  | .ok => none
  | .failed _ => none

end MinotariWallet
