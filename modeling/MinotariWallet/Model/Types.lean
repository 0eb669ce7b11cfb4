import Mathlib.Algebra.Ring.Int.Defs
import Mathlib.Algebra.Ring.Nat
import Mathlib.Data.Int.Order.Basic
import Mathlib.Tactic.Common

set_option autoImplicit false

/-! # Data model

The types of `models`, of `scanning` and of `displayed_transaction_processor/types.rs` that the
modelled functions read or write. Unsigned 64-bit values are `Nat`; a database column holds the
`Int` that `as i64` makes of them. Hashes, addresses, keys and UUIDs are only compared, so they are
names. A memo is its bytes; the text columns `memo_parsed` and `memo_hex` are both readings of
them. -/

namespace MinotariWallet

abbrev Id := Nat
abbrev AccountId := Nat
abbrev FixedHash := Nat
abbrev PaymentReference := Nat
abbrev TxId := Nat
abbrev RequestId := Nat
abbrev IdempotencyKey := String
abbrev PrivateKey := Nat
abbrev TariAddress := Nat
abbrev MicroMinotari := Nat
abbrev Bytes := List UInt8
abbrev Memo := Bytes
abbrev CompressedCommitment := Bytes
abbrev CompressedPublicKey := Bytes
/-- Seconds since the epoch, in UTC. -/
abbrev Timestamp := Int

/-! ## Casts between `u64` and `i64` -/

/-- `x as i64` for an unsigned 64-bit `x`. -/
def asI64 (x : Nat) : Int :=
  if x % 2 ^ 64 < 2 ^ 63 then (x % 2 ^ 64 : Nat) else (x % 2 ^ 64 : Nat) - 2 ^ 64

/-- `x as u64` for a signed 64-bit `x`. -/
def asU64 (x : Int) : Nat := (x % 2 ^ 64).toNat

theorem asI64_of_lt {x : Nat} (h : x < 2 ^ 63) : asI64 x = x := by
  unfold asI64
  split <;> omega

theorem asI64_eq_zero {x : Nat} (h : x < 2 ^ 64) : asI64 x = 0 ↔ x = 0 := by
  unfold asI64
  split <;> omega

theorem asI64_le (x : Nat) : asI64 x ≤ x := by
  unfold asI64
  split <;> omega

/-- Reading a column back as unsigned and storing it again gives the same column. -/
theorem asI64_asU64_asI64 (x : Nat) : asI64 (asU64 (asI64 x)) = asI64 x := by
  unfold asI64 asU64
  split <;> split <;> omega

theorem asU64_asI64 {x : Nat} (h : x < 2 ^ 64) : asU64 (asI64 x) = x := by
  unfold asI64 asU64
  split <;> omega

theorem asU64_of_nonneg {x : Int} (h : 0 ≤ x) (hlt : x < 2 ^ 64) : (asU64 x : Int) = x := by
  unfold asU64
  omega

/-- The range of `DateTime::from_timestamp`. -/
def fromTimestamp (secs : Int) : Option Timestamp :=
  if -8334601228800 ≤ secs ∧ secs ≤ 8210266876799 then some secs else none

/-! ## Statuses -/

inductive OutputStatus where
  | unspent
  | locked
  | spent
deriving DecidableEq, Repr

inductive PendingTransactionStatus where
  | pending
  | completed
  | cancelled
  | expired
deriving DecidableEq, Repr

inductive CompletedTransactionStatus where
  | completed
  | broadcast
  | minedUnconfirmed
  | minedConfirmed
  | rejected
  | canceled
deriving DecidableEq, Repr

inductive TransactionDirection where
  | incoming
  | outgoing
deriving DecidableEq, Repr

inductive TransactionSource where
  | transfer
  | coinbase
  | oneSided
  | unknown
deriving DecidableEq, Repr

inductive TransactionDisplayStatus where
  | pending
  | unconfirmed
  | confirmed
  | cancelled
  | reorganized
  | rejected
deriving DecidableEq, Repr

inductive WebhookStatus where
  | pending
  | success
  | failed
  | permanentFailure
deriving DecidableEq, Repr

/-! ## Outputs and blocks -/

/-- `output.payment_id()`: the memo and what its sender claims. -/
structure PaymentId where
  memo : Memo := []
  recipientAddress : Option TariAddress := none
  senderAddress : Option TariAddress := none
  fee : Option MicroMinotari := none
  amount : Option MicroMinotari := none
  /-- The sender and the amount of `get_transaction_info_details`, which a change output has. -/
  transactionInfoDetails : Option (TariAddress × MicroMinotari) := none
  sentHashes : Option (List FixedHash) := none
deriving DecidableEq

/-- The parts of a `WalletOutput` the wallet uses. -/
structure WalletOutput where
  outputHash : FixedHash
  value : MicroMinotari
  isCoinbase : Bool := false
  isBurned : Bool := false
  coinbaseExtra : Memo := []
  paymentId : PaymentId := {}
deriving DecidableEq

/-- A scanned block. A wallet output comes with its hash and the index of the key manager that
    recognised it. -/
structure BlockScanResult where
  height : Nat
  blockHash : FixedHash
  walletOutputs : List (FixedHash × WalletOutput × Nat)
  inputs : List FixedHash
  minedTimestamp : Nat
deriving DecidableEq

/-- What the wallet takes from the node for a header. -/
structure BlockHeaderInfo where
  height : Nat
  hash : FixedHash
deriving DecidableEq

/-! ## Balance changes -/

structure BalanceChange where
  accountId : AccountId
  causedByOutputId : Option Id
  causedByInputId : Option Id
  description : String
  balanceCredit : MicroMinotari
  balanceDebit : MicroMinotari
  effectiveDate : Timestamp
  effectiveHeight : Nat
  claimedRecipientAddress : Option TariAddress
  claimedSenderAddress : Option TariAddress
  memoParsed : Option Memo
  memoHex : Option Memo
  claimedFee : Option MicroMinotari
  claimedAmount : Option MicroMinotari
  isReversal : Bool
  reversalOfBalanceChangeId : Option Id
  isReversed : Bool
deriving DecidableEq

/-- An output of the account seen in a block. -/
structure DetectedOutput where
  height : Nat
  minedInBlockHash : FixedHash
  output : WalletOutput
deriving DecidableEq

/-- An output of the account spent in a block. -/
structure SpentInput where
  minedInBlock : FixedHash
  minedInBlockHeight : Nat
  outputId : Id
  output : WalletOutput
deriving DecidableEq

/-! ## Wallet events -/

inductive WalletEventType where
  | blockRolledBack (height : Nat) (blockHash : FixedHash)
  | outputDetected (hash : FixedHash) (blockHeight : Nat) (blockHash : FixedHash)
      (memoParsed memoHex : Option Memo)
  | outputConfirmed (hash : FixedHash) (blockHeight confirmationHeight : Nat)
      (memoParsed memoHex : Option Memo)
  | outputRolledBack (hash : FixedHash) (originalBlockHeight rolledBackAtHeight : Nat)
  | pendingTransactionCancelled (txId : RequestId) (reason : String)
  | transactionBroadcast (txId : TxId) (kernelExcess : FixedHash)
  | transactionUnconfirmed (txId : TxId) (minedHeight confirmations : Nat)
  | transactionConfirmed (txId : TxId) (minedHeight confirmationHeight : Nat)
  | transactionRejected (txId : TxId) (reason : String)
  | transactionReorged (txId : TxId) (originalMinedHeight : Nat)
deriving DecidableEq

def WalletEventType.toKeyString : WalletEventType → String
  | .blockRolledBack .. => "BlockRolledBack"
  | .outputDetected .. => "OutputDetected"
  | .outputConfirmed .. => "OutputConfirmed"
  | .outputRolledBack .. => "OutputRolledBack"
  | .pendingTransactionCancelled .. => "PendingTransactionCancelled"
  | .transactionBroadcast .. => "TransactionBroadcast"
  | .transactionUnconfirmed .. => "TransactionUnconfirmed"
  | .transactionConfirmed .. => "TransactionConfirmed"
  | .transactionRejected .. => "TransactionRejected"
  | .transactionReorged .. => "TransactionReorged"

structure WalletEvent where
  accountId : AccountId
  eventType : WalletEventType
  description : String
deriving DecidableEq

/-! ## Displayed transactions -/

/-- The values of `OutputType` that a displayed transaction is given. -/
inductive OutputType where
  | standard
  | coinbase
deriving DecidableEq

structure BlockchainInfo where
  blockHeight : Nat
  timestamp : Timestamp
  confirmations : Nat
  blockHash : FixedHash
deriving DecidableEq

structure TransactionInput where
  outputHash : FixedHash
  amount : MicroMinotari
  matchedOutputId : Id
  minedInBlockHash : FixedHash
deriving DecidableEq

structure TransactionOutput where
  hash : FixedHash
  amount : MicroMinotari
  status : OutputStatus
  minedInBlockHeight : Nat
  minedInBlockHash : FixedHash
  outputType : OutputType := .standard
  isChange : Bool
deriving DecidableEq

structure TransactionDetails where
  accountId : AccountId
  totalCredit : MicroMinotari
  totalDebit : MicroMinotari
  inputs : List TransactionInput
  outputs : List TransactionOutput
  outputType : Option OutputType := none
  coinbaseExtra : Option Memo := none
  memoHex : Option Memo
  sentOutputHashes : List FixedHash
  sentPayrefs : List PaymentReference
deriving DecidableEq

structure DisplayedTransaction where
  id : TxId
  direction : TransactionDirection
  source : TransactionSource
  status : TransactionDisplayStatus
  amount : MicroMinotari
  message : Option Memo
  counterparty : Option TariAddress
  blockchain : BlockchainInfo
  fee : Option MicroMinotari
  details : TransactionDetails
deriving DecidableEq

/-! ## Transactions -/

/-- A signed transaction: the hashes of the outputs it spends, and the kernel excess by which the
    node knows it. -/
structure Transaction where
  kernelExcess : FixedHash
  inputs : List FixedHash
deriving DecidableEq

/-! ## Webhooks -/

structure WebhookTriggerConfig where
  url : String
  sendOnlyEventTypes : Option (List String)
deriving DecidableEq

structure WebhookBalanceSnapshot where
  available : Nat
  pendingIncoming : Nat
  pendingOutgoing : Nat
deriving DecidableEq

structure WebhookPayload where
  eventId : Id
  eventType : String
  createdAt : Timestamp
  balance : Option WebhookBalanceSnapshot
  data : WalletEventType
deriving DecidableEq

/-! ## Errors -/

/-- The errors of `WalletDbError` that the modelled functions return. -/
inductive WalletDbError where
  | rusqlite (message : String)
  | serdeRusqlite (message : String)
  | decoding (message : String)
  | duplicateEntry (message : String)
  | unexpected (message : String)
deriving DecidableEq

def WalletDbError.toString : WalletDbError → String
  | .rusqlite message => s!"Database execution error: {message}"
  | .serdeRusqlite message => s!"Row mapping error: {message}"
  | .decoding message => s!"Decoding error: {message}"
  | .duplicateEntry message => s!"Duplicate entry: {message}"
  | .unexpected message => s!"Unexpected error: {message}"

end MinotariWallet
