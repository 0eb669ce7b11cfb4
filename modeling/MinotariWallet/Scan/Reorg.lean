import MinotariWallet.Db.Inputs
import MinotariWallet.Db.ScannedTipBlocks
import MinotariWallet.Db.PendingTransactions
import MinotariWallet.Db.DisplayedTransactions
import MinotariWallet.Db.Events

set_option autoImplicit false

/-! # `scan/reorg.rs` -/

namespace MinotariWallet

open Sql Exec

structure ReorgInformation where
  rolledBackFromHeight : Nat
  rolledBackBlocksCount : Nat
  invalidatedOutputHashes : List FixedHash
  cancelledTransactionIds : List RequestId
  reorganizedDisplayedTransactions : List DisplayedTransaction
deriving DecidableEq

structure ReorgResult where
  resumeHeight : Nat
  reorgInformation : Option ReorgInformation
deriving DecidableEq

/-- Store an event, and keep it with its id for the webhooks. -/
def logWalletEvent (accountId : AccountId) (generatedEvents : List (Id × WalletEvent))
    (event : WalletEvent) : DbM (List (Id × WalletEvent)) := do
  let eventId ← insert (·.insertWalletEvent accountId event)
  pure (generatedEvents ++ [(eventId, event)])

def blockRolledBackEvent (accountId : AccountId) (block : ScannedTipBlock) : WalletEvent where
  accountId := accountId
  eventType := .blockRolledBack block.height block.hash
  description :=
    let height := block.height
    s!"Block at height {height} was rolled back due to reorg"

def outputRolledBackEvent (accountId : AccountId) (reorgStartHeight : Nat)
    (outputRow : ReorgOutputInfo) : WalletEvent where
  accountId := accountId
  eventType := .outputRolledBack outputRow.outputHash (asU64 outputRow.minedInBlockHeight)
    reorgStartHeight
  description :=
    let hash := outputRow.outputHash
    let height := outputRow.minedInBlockHeight
    s!"Output {hash} at height {height} was rolled back due to reorg"

def pendingTransactionCancelledEvent (accountId : AccountId) (txId : RequestId) : WalletEvent where
  accountId := accountId
  eventType := .pendingTransactionCancelled txId
    "Transaction cancelled due to blockchain reorg"
  description := s!"Pending transaction {txId} cancelled due to reorg"

/-- The requests that lock an affected output. The source collects them in a hash set; here they are
    in the order of the outputs. -/
def cancelledPendingTxIds (affectedOutputs : List ReorgOutputInfo) : List RequestId :=
  (affectedOutputs.filterMap (·.lockedByRequestId)).dedup

def rollbackFromHeight (accountId : AccountId) (reorgStartHeight : Nat)
    (webhookConfig : Option WebhookTriggerConfig) (now : Timestamp) : DbM ReorgInformation := do
  let tipBlocks ← tryQuery (·.getScannedTipBlocksByAccount accountId)
  let rolledBackBlocks := tipBlocks.filter (fun b => reorgStartHeight ≤ b.height)
  let generatedEvents ← (rolledBackBlocks.map (blockRolledBackEvent accountId)).foldlM
    (logWalletEvent accountId) []
  let affectedOutputs ← query (·.getActiveOutputsFromHeight accountId reorgStartHeight)
  let generatedEvents ←
    (affectedOutputs.map (outputRolledBackEvent accountId reorgStartHeight)).foldlM
      (logWalletEvent accountId) generatedEvents
  let cancelledTransactionIds := cancelledPendingTxIds affectedOutputs
  cancelPendingTransactionsByIds cancelledTransactionIds .cancelled
  let generatedEvents ←
    (cancelledTransactionIds.map (pendingTransactionCancelledEvent accountId)).foldlM
      (logWalletEvent accountId) generatedEvents
  softDeleteInputsFromHeight accountId reorgStartHeight now
  softDeleteOutputsFromHeight accountId reorgStartHeight now
  update (·.deleteScannedTipBlocksFromHeight accountId reorgStartHeight)
  saveDisplayedTransactionPayrefsBeforeReorg accountId reorgStartHeight now
  let reorganizedDisplayedTransactions ←
    markDisplayedTransactionsReorganizedAndReturn accountId reorgStartHeight
  saveCompletedTransactionPayrefsBeforeReorg accountId reorgStartHeight now
  update (·.resetMinedCompletedTransactionsFromHeight accountId reorgStartHeight now)
  triggerWebhooks accountId generatedEvents webhookConfig now
  pure {
    rolledBackFromHeight := reorgStartHeight
    rolledBackBlocksCount := rolledBackBlocks.length
    invalidatedOutputHashes := affectedOutputs.map (·.outputHash)
    cancelledTransactionIds, reorganizedDisplayedTransactions }

/-- The node's answers to `get_header_by_height` during one call: an error, no header, or a
    header. -/
abbrev HeaderSource := Nat → Except WalletDbError (Option BlockHeaderInfo)

/-- The loop of `handle_reorgs` over the recorded blocks, the highest first: the height after the
    first block that is still on the chain (0 when there is none), and whether a block before it
    was not. -/
def findForkPoint (getHeaderByHeight : HeaderSource) :
    List ScannedTipBlock → Except WalletDbError (Nat × Bool)
  | [] => .ok (0, false)
  | block :: rest => do
    match ← getHeaderByHeight block.height with
    | some chainBlock =>
      if chainBlock.hash = block.hash then pure (block.height + 1, false)
      else do
        let (reorgStartHeight, _) ← findForkPoint getHeaderByHeight rest
        pure (reorgStartHeight, true)
    | none => do
      let (reorgStartHeight, _) ← findForkPoint getHeaderByHeight rest
      pure (reorgStartHeight, true)

def handleReorgs (getHeaderByHeight : HeaderSource) (accountId : AccountId)
    (webhookConfig : Option WebhookTriggerConfig) (now : Timestamp) : DbM ReorgResult := do
  let lastBlocks ← tryQuery (·.getScannedTipBlocksByAccount accountId)
  match lastBlocks with
  | [] => pure { resumeHeight := 0, reorgInformation := none }
  | first :: _ => do
    let (reorgStartHeight, isReorgDetected) ← lift (findForkPoint getHeaderByHeight lastBlocks)
    if isReorgDetected then do
      let reorgInfo ← inTransaction
        (rollbackFromHeight accountId reorgStartHeight webhookConfig now)
      pure { resumeHeight := reorgStartHeight, reorgInformation := some reorgInfo }
    else
      pure { resumeHeight := first.height + 1, reorgInformation := none }

end MinotariWallet
