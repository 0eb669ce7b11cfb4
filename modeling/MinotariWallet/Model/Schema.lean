import MinotariWallet.Lib.Table
import MinotariWallet.Lib.Exec
import MinotariWallet.Model.Types

set_option autoImplicit false

/-! # Database schema

The tables of `minotari/migrations` that the modelled functions touch. A JSON column
(`wallet_output_json`, `transaction_json`, `data_json`, `payref`, `payload`) is the value that it
serialises. The `accounts` table is not modelled: no statement here reads it, and an account is its
id. -/

namespace MinotariWallet

open Sql

/-- `outputs`. A row with `deletedAt` set is a tombstone. -/
structure OutputRow where
  id : Id
  accountId : AccountId
  txId : TxId
  outputHash : FixedHash
  minedInBlockHash : FixedHash
  minedInBlockHeight : Int
  value : Int
  walletOutput : WalletOutput
  minedTimestamp : Timestamp
  confirmedHeight : Option Int := none
  confirmedHash : Option FixedHash := none
  memoParsed : Option Memo := none
  memoHex : Option Memo := none
  status : OutputStatus := .unspent
  lockedAt : Option Timestamp := none
  lockedByRequestId : Option RequestId := none
  deletedAt : Option Timestamp := none
  deletedInBlockHeight : Option Int := none
  paymentReference : Option PaymentReference := none
  isBurn : Bool := false
deriving DecidableEq

/-- `inputs`. -/
structure InputRow where
  id : Id
  accountId : AccountId
  outputId : Id
  minedInBlockHash : FixedHash
  minedInBlockHeight : Int
  minedTimestamp : Timestamp
  deletedAt : Option Timestamp := none
  deletedInBlockHeight : Option Int := none
deriving DecidableEq

/-- `balance_changes`. -/
structure BalanceChangeRow where
  id : Id
  accountId : AccountId
  causedByOutputId : Option Id
  causedByInputId : Option Id
  description : String
  balanceCredit : Int
  balanceDebit : Int
  effectiveDate : Timestamp
  effectiveHeight : Int
  claimedRecipientAddress : Option TariAddress
  claimedSenderAddress : Option TariAddress
  memoParsed : Option Memo
  memoHex : Option Memo
  claimedFee : Option Int
  claimedAmount : Option Int
  isReversal : Bool
  reversalOfBalanceChangeId : Option Id
  isReversed : Bool
deriving DecidableEq

/-- `scanned_tip_blocks`. -/
structure ScannedTipBlockRow where
  id : Id
  accountId : AccountId
  height : Int
  hash : FixedHash
deriving DecidableEq

/-- `events`. -/
structure EventRow where
  id : Id
  accountId : AccountId
  eventType : String
  description : String
  data : WalletEventType
deriving DecidableEq

/-- `pending_transactions`. -/
structure PendingTransactionRow where
  id : RequestId
  accountId : AccountId
  idempotencyKey : IdempotencyKey
  status : PendingTransactionStatus
  requiresChangeOutput : Bool
  totalValue : Int
  feeWithoutChange : Int
  feeWithChange : Int
  expiresAt : Timestamp
deriving DecidableEq

/-- `completed_transactions`. -/
structure CompletedTransactionRow where
  id : TxId
  accountId : AccountId
  pendingTxId : RequestId
  status : CompletedTransactionStatus
  lastRejectedReason : Option String := none
  kernelExcess : FixedHash
  sentPayref : Option PaymentReference := none
  minedHeight : Option Int := none
  minedBlockHash : Option FixedHash := none
  confirmationHeight : Option Int := none
  broadcastAttempts : Nat := 0
  sentOutputHash : Option FixedHash := none
  serializedTransaction : Transaction
  createdAt : Timestamp
  updatedAt : Timestamp
deriving DecidableEq

/-- `displayed_transactions`. -/
structure DisplayedTransactionRow where
  id : TxId
  accountId : AccountId
  direction : TransactionDirection
  source : TransactionSource
  status : TransactionDisplayStatus
  amount : Int
  blockHeight : Int
  timestamp : Timestamp
  transaction : DisplayedTransaction
  payref : Option (List PaymentReference)
deriving DecidableEq

/-- `payref_history`. -/
structure PayrefHistoryRow where
  id : Id
  accountId : AccountId
  transactionId : TxId
  oldPayref : PaymentReference
  outputHash : Option FixedHash
  createdAt : Timestamp
deriving DecidableEq

/-- `webhook_queue`. -/
structure WebhookQueueRow where
  id : Id
  eventId : Option Id
  eventType : String
  payload : WebhookPayload
  targetUrl : String
  status : WebhookStatus
  attemptCount : Nat
  nextRetryAt : Timestamp
deriving DecidableEq

instance : Keyed OutputRow Id := ⟨OutputRow.id⟩
instance : Keyed InputRow Id := ⟨InputRow.id⟩
instance : Keyed BalanceChangeRow Id := ⟨BalanceChangeRow.id⟩
instance : Keyed ScannedTipBlockRow Id := ⟨ScannedTipBlockRow.id⟩
instance : Keyed EventRow Id := ⟨EventRow.id⟩
instance : Keyed PendingTransactionRow RequestId := ⟨PendingTransactionRow.id⟩
instance : Keyed CompletedTransactionRow TxId := ⟨CompletedTransactionRow.id⟩
instance : Keyed DisplayedTransactionRow TxId := ⟨DisplayedTransactionRow.id⟩
instance : Keyed PayrefHistoryRow Id := ⟨PayrefHistoryRow.id⟩
instance : Keyed WebhookQueueRow Id := ⟨WebhookQueueRow.id⟩

structure Db where
  outputs : AutoTable OutputRow := AutoTable.empty
  inputs : AutoTable InputRow := AutoTable.empty
  balanceChanges : AutoTable BalanceChangeRow := AutoTable.empty
  scannedTipBlocks : AutoTable ScannedTipBlockRow := AutoTable.empty
  events : AutoTable EventRow := AutoTable.empty
  pendingTransactions : Table PendingTransactionRow := Table.empty
  completedTransactions : Table CompletedTransactionRow := Table.empty
  displayedTransactions : Table DisplayedTransactionRow := Table.empty
  payrefHistory : AutoTable PayrefHistoryRow := AutoTable.empty
  webhookQueue : AutoTable WebhookQueueRow := AutoTable.empty

/-- The database right after its migrations. -/
def Db.empty : Db := {}

/-- `deleted_at IS NULL`. -/
def OutputRow.active (o : OutputRow) : Bool := o.deletedAt.isNone

/-- `deleted_at IS NULL`. -/
def InputRow.active (i : InputRow) : Bool := i.deletedAt.isNone

/-- `is_reversal = FALSE AND is_reversed = FALSE`. -/
def BalanceChangeRow.active (b : BalanceChangeRow) : Bool := !b.isReversal && !b.isReversed

/-- A function that talks to the database over one connection. -/
abbrev DbM (α : Type) := Exec.Prog WalletDbError Db α

instance : Exec.Fault WalletDbError := ⟨.rusqlite "disk I/O error"⟩

/-- The functions of other crates and of the runtime that the modelled code calls. -/
structure Externals where
  /-- `generate_payment_reference(block_hash, output_hash)`. -/
  generatePaymentReference : FixedHash → FixedHash → PaymentReference
  /-- `TxId::new_deterministic(view_key, output_hash)`. -/
  newDeterministic : PrivateKey → FixedHash → TxId

end MinotariWallet
