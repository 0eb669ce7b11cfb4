import MinotariWallet.Db.Inputs
import MinotariWallet.Db.ScannedTipBlocks
import MinotariWallet.Db.DisplayedTransactions
import MinotariWallet.Db.Events

set_option autoImplicit false

/-! # `scan/block_processor.rs` and `scan/block_event_accumulator.rs`

What the processor keeps between steps (`wallet_events`, `current_block`) is passed along. A block's
processing events are sent after its last statement, so they are part of the result. -/

namespace MinotariWallet

open Sql Exec

/-! ## Accumulator -/

structure BlockEventAccumulator where
  accountId : AccountId
  height : Nat
  blockHash : FixedHash
  debitBalanceChanges : List (BalanceChange × SpentInput) := []
  creditBalanceChanges : List (BalanceChange × DetectedOutput) := []

structure BalanceChangeSummary where
  credit : MicroMinotari
  debit : MicroMinotari
  description : String
deriving DecidableEq

structure BlockProcessedEvent where
  accountId : AccountId
  height : Nat
  blockHash : FixedHash
  outputsDetected : List DetectedOutput
  inputsSpent : List SpentInput
  balanceChanges : List BalanceChangeSummary
deriving DecidableEq

structure DisplayedTransactionsEvent where
  accountId : AccountId
  transactions : List DisplayedTransaction
  blockHeight : Option Nat
  isInitialSync : Bool
deriving DecidableEq

inductive ProcessingEvent where
  | blockProcessed (event : BlockProcessedEvent)
  | transactionsReady (event : DisplayedTransactionsEvent)
deriving DecidableEq

def BalanceChange.summary (c : BalanceChange) : BalanceChangeSummary :=
  ⟨c.balanceCredit, c.balanceDebit, c.description⟩

namespace BlockEventAccumulator

def addDebitChange (acc : BlockEventAccumulator) (change : BalanceChange) (input : SpentInput) :
    BlockEventAccumulator :=
  { acc with debitBalanceChanges := acc.debitBalanceChanges ++ [(change, input)] }

def addCreditChange (acc : BlockEventAccumulator) (change : BalanceChange)
    (output : DetectedOutput) : BlockEventAccumulator :=
  { acc with creditBalanceChanges := acc.creditBalanceChanges ++ [(change, output)] }

def isEmpty (acc : BlockEventAccumulator) : Bool :=
  acc.debitBalanceChanges.isEmpty && acc.creditBalanceChanges.isEmpty

def intoEvent (acc : BlockEventAccumulator) : BlockProcessedEvent where
  accountId := acc.accountId
  height := acc.height
  blockHash := acc.blockHash
  outputsDetected := acc.creditBalanceChanges.map (·.2)
  inputsSpent := acc.debitBalanceChanges.map (·.2)
  balanceChanges := acc.creditBalanceChanges.map (·.1.summary)
    ++ acc.debitBalanceChanges.map (·.1.summary)

end BlockEventAccumulator

/-! ## Processor -/

/-- What the processor is generic in: the functions of other crates, and how displayed transactions
    are matched to a block (`create_new_updated_display_transactions`: the updated and the new
    ones). -/
structure ScanEnv extends Externals where
  createNewUpdatedDisplayTransactions : (currentTipHeight reqConfirmations : Nat) → PrivateKey →
    BlockEventAccumulator → List DisplayedTransaction →
    Except String (List DisplayedTransaction × List DisplayedTransaction)

structure BlockProcessor where
  /-- Which account a wallet index of the scanner stands for. -/
  walletIndexToAccountId : List AccountId
  /-- The entries of the map; of several for one account the last counts. -/
  accountViewKeys : List (AccountId × PrivateKey)
  requiredConfirmations : Nat
  webhookConfig : Option WebhookTriggerConfig := none

/-- `with_event_sender` and `build_account_mappings`. -/
def BlockProcessor.withEventSender (accounts : List (AccountId × PrivateKey))
    (requiredConfirmations : Nat) : BlockProcessor where
  walletIndexToAccountId := accounts.map (·.1)
  accountViewKeys := accounts
  requiredConfirmations := requiredConfirmations

/-- The events collected while a block is processed. -/
structure BlockOutcome where
  walletEvents : List WalletEvent
  processingEvents : List ProcessingEvent

structure MemoInfo where
  parsed : Option Memo
  hex : Option Memo

def MemoInfo.fromOutput (output : WalletOutput) : MemoInfo :=
  let memoBytes := output.paymentId.memo
  if memoBytes.isEmpty then ⟨none, none⟩ else ⟨some memoBytes, some memoBytes⟩

/-- `make_balance_change_for_output`. -/
def makeBalanceChangeForOutput (accountId : AccountId) (outputId : Id) (timestamp height : Nat)
    (output : WalletOutput) (now : Timestamp) : BalanceChange :=
  let paymentInfo := output.paymentId
  { accountId
    causedByOutputId := some outputId
    causedByInputId := none
    description :=
      if output.isCoinbase then "Coinbase output found in blockchain scan"
      else "Output found in blockchain scan"
    balanceCredit := output.value
    balanceDebit := 0
    effectiveDate := (fromTimestamp (asI64 timestamp)).getD now
    effectiveHeight := height
    claimedRecipientAddress := if output.isCoinbase then none else paymentInfo.recipientAddress
    claimedSenderAddress := if output.isCoinbase then none else paymentInfo.senderAddress
    memoParsed := some paymentInfo.memo
    memoHex := some paymentInfo.memo
    claimedFee := paymentInfo.fee
    claimedAmount := paymentInfo.amount
    isReversal := false
    reversalOfBalanceChangeId := none
    isReversed := false }

/-- The change that `record_input_balance_change` records. -/
def makeBalanceChangeForInput (accountId : AccountId) (inputId : Id) (value : MicroMinotari)
    (block : BlockScanResult) (now : Timestamp) : BalanceChange where
  accountId := accountId
  causedByOutputId := none
  causedByInputId := some inputId
  description := "Output spent as input"
  balanceCredit := 0
  balanceDebit := value
  effectiveDate := (fromTimestamp (asI64 block.minedTimestamp)).getD now
  effectiveHeight := block.height
  claimedRecipientAddress := none
  claimedSenderAddress := none
  memoParsed := none
  memoHex := none
  claimedFee := none
  claimedAmount := none
  isReversal := false
  reversalOfBalanceChangeId := none
  isReversed := false

/-- `make_output_detected_event`. -/
def makeOutputDetectedEvent (accountId : AccountId) (hash : FixedHash) (block : BlockScanResult)
    (memo : MemoInfo) : WalletEvent where
  accountId := accountId
  eventType := .outputDetected hash block.height block.blockHash memo.parsed memo.hex
  description :=
    let height := block.height
    s!"Detected output at height {height}"

/-- `make_confirmation_event`. -/
def makeConfirmationEvent (accountId : AccountId) (outputHash : FixedHash)
    (originalHeight confirmationHeight : Nat) (memoParsed memoHex : Option Memo) : WalletEvent where
  accountId := accountId
  eventType := .outputConfirmed outputHash originalHeight confirmationHeight memoParsed memoHex
  description :=
    s!"Output confirmed at height {confirmationHeight} (originally at {originalHeight})"

namespace BlockProcessor

variable (env : ScanEnv) (bp : BlockProcessor) (now : Timestamp)

/-- `account_view_key`. -/
def accountViewKey (accountId : AccountId) : Except WalletDbError PrivateKey :=
  match bp.accountViewKeys.reverse.lookup accountId with
  | some key => .ok key
  | none => .error (.unexpected s!"Unknown account id: {accountId}")

/-- What the loops over a block carry: the events stored so far, and the accumulator. -/
structure LoopState where
  generatedEvents : List (Id × WalletEvent) := []
  acc : BlockEventAccumulator

/-- The body of the loop in `process_outputs`. -/
def processOutput (block : BlockScanResult) (accountId : AccountId) (accountViewKey : PrivateKey)
    (st : LoopState) (walletOutput : FixedHash × WalletOutput × Nat) : DbM LoopState := do
  let (hash, output, walletIdx) := walletOutput
  match bp.walletIndexToAccountId[walletIdx]? with
  | none => pure st
  | some mappedAccountId =>
    if mappedAccountId ≠ accountId then pure st
    else do
      let memo := MemoInfo.fromOutput output
      let event := makeOutputDetectedEvent accountId hash block memo
      let paymentReference := env.generatePaymentReference block.blockHash hash
      let outputId ← stmt (Db.insertOutput env.toExternals accountId accountViewKey hash output
        block.height block.blockHash block.minedTimestamp memo.parsed memo.hex paymentReference
        output.isBurned)
      let eventId ← insert (·.insertWalletEvent accountId event)
      let balanceChange := makeBalanceChangeForOutput accountId outputId block.minedTimestamp
        block.height output now
      let _ ← insert (·.insertBalanceChange balanceChange)
      pure {
        generatedEvents := st.generatedEvents ++ [(eventId, event)]
        acc := st.acc.addCreditChange balanceChange ⟨block.height, block.blockHash, output⟩ }

def processOutputs (block : BlockScanResult) (accountId : AccountId) (accountViewKey : PrivateKey)
    (acc : BlockEventAccumulator) : DbM LoopState := do
  let st ← block.walletOutputs.foldlM
    (processOutput env bp now block accountId accountViewKey) { acc }
  triggerWebhooks accountId st.generatedEvents bp.webhookConfig now
  pure st

/-- The body of the loop in `process_inputs`. -/
def processInput (block : BlockScanResult) (accountId : AccountId) (acc : BlockEventAccumulator)
    (inputHash : FixedHash) : DbM BlockEventAccumulator := do
  match ← query (·.getOutputInfoByHashForAccount accountId inputHash) with
  | none => pure acc
  | some info => do
    let inputId ← insertInput accountId info.id block.height block.blockHash block.minedTimestamp
    let balanceChange := makeBalanceChangeForInput accountId inputId info.output.value block now
    let _ ← insert (·.insertBalanceChange balanceChange)
    update (·.updateOutputStatus info.id .spent)
    pure (acc.addDebitChange balanceChange ⟨block.blockHash, block.height, info.id, info.output⟩)

def processInputs (block : BlockScanResult) (accountId : AccountId)
    (acc : BlockEventAccumulator) : DbM BlockEventAccumulator :=
  block.inputs.foldlM (processInput now block accountId) acc

def recordScannedBlock (block : BlockScanResult) (accountId : AccountId) : DbM Unit :=
  update (·.insertScannedTipBlock accountId (asI64 block.height) block.blockHash)

/-- The body of the loop in `process_confirmations`. The burn-proof lookup of the source only
    logs. -/
def processConfirmation (block : BlockScanResult) (accountId : AccountId)
    (generatedEvents : List (Id × WalletEvent)) (unconfirmedOutput : UnconfirmedOutputRow) :
    DbM (List (Id × WalletEvent)) := do
  let event := makeConfirmationEvent accountId unconfirmedOutput.outputHash
    (asU64 unconfirmedOutput.minedInBlockHeight) block.height unconfirmedOutput.memoParsed
    unconfirmedOutput.memoHex
  let eventId ← insert (·.insertWalletEvent accountId event)
  update (·.markOutputConfirmed unconfirmedOutput.outputHash block.height block.blockHash)
  pure (generatedEvents ++ [(eventId, event)])

def processConfirmations (block : BlockScanResult) (accountId : AccountId) :
    DbM (List (Id × WalletEvent)) := do
  let unconfirmedOutputs ← query (·.getUnconfirmedOutputs accountId block.height
    bp.requiredConfirmations)
  let generatedEvents ← unconfirmedOutputs.foldlM (processConfirmation block accountId) []
  triggerWebhooks accountId generatedEvents bp.webhookConfig now
  pure generatedEvents

/-- `create_new_updated_display_transactions_for_height`: the transactions from the block's height
    on, and the pending ones. -/
def createNewUpdatedDisplayTransactionsForHeight (accountViewKey : PrivateKey)
    (accumulator : BlockEventAccumulator) :
    DbM (List DisplayedTransaction × List DisplayedTransaction) := do
  let current ← query (·.getDisplayedTransactionsFromHeight accumulator.accountId
    accumulator.height)
  let pendingTxs ← query (·.getDisplayedTransactionsByStatus accumulator.accountId .pending)
  let existingIds := current.map (·.id)
  let retained := pendingTxs.filter (fun tx => !existingIds.contains tx.id)
  match env.createNewUpdatedDisplayTransactions accumulator.height bp.requiredConfirmations
      accountViewKey accumulator (current ++ retained) with
  | .ok r => pure r
  | .error e => throw (.unexpected s!"Failed to process displayed transactions: {e}")

def saveAndEmitDisplayedTransactions (blockHeight : Nat) (accountId : AccountId)
    (accountViewKey : PrivateKey) (accumulator : BlockEventAccumulator) :
    DbM (List ProcessingEvent) := do
  if accumulator.isEmpty then pure []
  else do
    let (updatedTransactions, newTransactions) ←
      createNewUpdatedDisplayTransactionsForHeight env bp accountViewKey accumulator
    updatedTransactions.forM (fun updated => update (·.updateDisplayedTransactionMined updated))
    newTransactions.forM (fun new => update (·.insertDisplayedTransaction new))
    pure [.transactionsReady {
      accountId
      transactions := updatedTransactions ++ newTransactions
      blockHeight := some blockHeight
      isInitialSync := false }]

def processBlock (block : BlockScanResult) (accountId : AccountId) : DbM BlockOutcome := do
  let accountViewKey ← lift (bp.accountViewKey accountId)
  let st ← processOutputs env bp now block accountId accountViewKey
    { accountId, height := block.height, blockHash := block.blockHash }
  let acc ← processInputs now block accountId st.acc
  recordScannedBlock block accountId
  let confirmed ← processConfirmations bp now block accountId
  let ready ← saveAndEmitDisplayedTransactions env bp block.height accountId accountViewKey acc
  pure {
    walletEvents := (st.generatedEvents ++ confirmed).map (·.2)
    processingEvents := ready ++ [.blockProcessed acc.intoEvent] }

end BlockProcessor

end MinotariWallet
