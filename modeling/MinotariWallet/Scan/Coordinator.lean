import MinotariWallet.Lib.Transition
import MinotariWallet.Scan.BlockProcessor
import MinotariWallet.Scan.Reorg

set_option autoImplicit false

/-! # `scan/coordinator.rs`, `scan/scan_db_handler.rs` and `scan/scanner_state_manager.rs`

`unified_scan_loop` as a machine: one step for each thing it waits for, which is a response of the
stream, a database task, a reorg check of one account or the end of the poll interval. The status
events that it sends and the wallet events that it buffers decide nothing and are left out. -/

namespace MinotariWallet

open Sql Exec

inductive ScanError where
  | fatal (message : String)
  | intermittent (message : String)
  /-- The error of a database task; `process_blocks` passes it on as text. -/
  | dbError (e : WalletDbError)
  /-- An error of `handle_reorgs` or of the monitor, passed on as `Fatal`. -/
  | fatalDb (e : WalletDbError)
deriving DecidableEq

inductive ScanMode where
  | partialScan (maxBlocks : Nat)
  | full
  | continuous
deriving DecidableEq

structure AccountSyncTarget where
  accountId : AccountId
  /-- The key manager of the account, which is known by its view key. -/
  viewKey : PrivateKey
  nextBlockToScan : Nat
deriving DecidableEq

/-! ## `scanner_state_manager.rs` -/

structure ScanConfig where
  startHeight : Nat
  endHeight : Option Nat
  batchSize : Nat
deriving DecidableEq

structure ScannerStateManager where
  /-- The key managers of the scanner, if there is one. -/
  scanner : Option (List PrivateKey) := none
  activeAccountIds : List AccountId := []
deriving DecidableEq

/-- `targets.iter().find(..)` by account. -/
def findTarget (targets : List AccountSyncTarget) (accountId : AccountId) :
    Option AccountSyncTarget :=
  targets.find? (fun target => target.accountId == accountId)

def activeKeyManagers (targets : List AccountSyncTarget) (accountIds : List AccountId) :
    Except ScanError (List PrivateKey) :=
  accountIds.mapM (fun accountId =>
    match findTarget targets accountId with
    | some target => .ok target.viewKey
    | none => .error (.fatal s!"Unknown active account id: {accountId}"))

/-- `get_scanner_and_config`; the scanner is built again only if the accounts changed. -/
def ScannerStateManager.getScannerAndConfig (manager : ScannerStateManager)
    (newActiveAccountIds : List AccountId) (newStartHeight : Nat) (newEndHeight : Option Nat)
    (batchSize : Nat) (allTargets : List AccountSyncTarget) :
    Except ScanError (ScannerStateManager × ScanConfig) := do
  let manager ←
    if manager.scanner.isNone ∨ manager.activeAccountIds ≠ newActiveAccountIds then do
      let keyManagers ← activeKeyManagers allTargets newActiveAccountIds
      pure { scanner := some keyManagers, activeAccountIds := newActiveAccountIds }
    else pure manager
  pure (manager, { startHeight := newStartHeight, endHeight := newEndHeight, batchSize })

/-! ## `scan_db_handler.rs` -/

/-- `process_blocks`: one transaction for the blocks of a batch from `nextBlockToScan` on. -/
def processBlocks (env : ScanEnv) (processor : BlockProcessor) (now : Timestamp)
    (blocks : List BlockScanResult) (accountId : AccountId) (nextBlockToScan : Nat) :
    DbM (List WalletEvent) :=
  inTransaction
    ((blocks.filter (fun block => nextBlockToScan ≤ block.height)).foldlM
      (fun events block => do
        let outcome ← processor.processBlock env now block accountId
        pure (events ++ outcome.walletEvents)) [])

def pruneTips (accountId : AccountId) (height : Nat) : DbM Unit :=
  Exec.update (·.pruneScannedTipBlocks accountId height)

/-! ## `coordinator.rs` -/

structure ScanCoordinator where
  env : ScanEnv
  /-- `BIRTHDAY_GENESIS_FROM_UNIX_EPOCH`, a constant of another crate. -/
  birthdayGenesis : Nat
  requiredConfirmations : Nat
  webhookConfig : Option WebhookTriggerConfig
  reorgCheckInterval : Nat
  batchSize : Nat
  mode : ScanMode

/-- What `prepare_target` uses of an account. -/
structure AccountRow where
  id : AccountId
  viewKey : PrivateKey
  /-- In days. -/
  birthday : Nat
deriving DecidableEq

/-- The node's answers while an account is prepared. -/
structure PrepareAnswers where
  getHeaderByHeight : HeaderSource
  getHeightAtTime : Nat → Except WalletDbError Nat

/-- `prepare_target`, but for the monitor's state. -/
def ScanCoordinator.prepareTarget (co : ScanCoordinator) (scanningOffset : Nat) (now : Timestamp)
    (account : AccountRow) (node : PrepareAnswers) : DbM AccountSyncTarget := do
  let reorgResult ← handleReorgs node.getHeaderByHeight account.id co.webhookConfig now
  let nextBlock ←
    if reorgResult.resumeHeight = 0 then
      lift (node.getHeightAtTime
        ((account.birthday - scanningOffset) * 24 * 60 * 60 + co.birthdayGenesis))
    else pure reorgResult.resumeHeight
  pure { accountId := account.id, viewKey := account.viewKey, nextBlockToScan := nextBlock }

/-- The loop of `run` over the accounts. -/
def ScanCoordinator.prepareTargets (co : ScanCoordinator) (scanningOffset : Nat) (now : Timestamp) :
    List (AccountRow × PrepareAnswers) → DbM (List AccountSyncTarget)
  | [] => pure []
  | (account, node) :: rest => do
    let target ← co.prepareTarget scanningOffset now account node
    let targets ← co.prepareTargets scanningOffset now rest
    pure (target :: targets)

/-- The open stream of an iteration, with what the loop fixed when it opened it. The loop reads
    none of the last three. -/
structure UtxoStream where
  activeAccountIds : List AccountId
  config : ScanConfig
  /-- `next_horizon_height`, where the next account waited when the stream was opened. -/
  nextHorizonHeight : Option Nat
  /-- The height after the last block that the stream has delivered. -/
  position : Nat
  /-- The accounts that a reorg check has set back while the stream was open, and that no batch has
      been delivered for since. -/
  rolledBack : List AccountId := []
deriving DecidableEq

inductive LoopPhase where
  /-- At the head of the loop. -/
  | iterate
  /-- At `utxo_stream.recv()`. -/
  | receive (stream : UtxoStream)
  /-- In the loop over the active accounts, with those still to come. -/
  | processBatch (stream : UtxoStream) (blocks : List BlockScanResult)
      (accountIds : List AccountId)
  /-- Past the guard on the last height of the batch. -/
  | monitor (stream : UtxoStream) (blocks : List BlockScanResult) (accountIds : List AccountId)
      (accountId : AccountId) (lastHeight : Nat)
  | prune (stream : UtxoStream) (blocks : List BlockScanResult) (accountIds : List AccountId)
      (accountId : AccountId) (lastHeight : Nat)
  /-- In `check_global_reorgs`, with the accounts still to check; then back to the stream, or to the
      head of the loop. -/
  | checkReorgs (accountIds : List AccountId) (stream : Option UtxoStream)
  /-- Asleep in `wait_for_next_poll_cycle`. -/
  | wait
  /-- Returned `Ok((_, more_blocks))`. -/
  | returned (moreBlocks : Bool)
  | failed (e : ScanError)
deriving DecidableEq

structure ScanLoop where
  db : Db
  targets : List AccountSyncTarget
  blockProcessor : BlockProcessor
  stateManager : ScannerStateManager := {}
  totalScannedGlobally : Nat := 0
  blocksSinceReorgCheck : Nat := 0
  phase : LoopPhase := .iterate
  /-- The tip that the node reported for the stream opened last. -/
  tipHeight : Nat := 0
  /-- What was processed in this run and not rolled back since, by account and height. -/
  scanned : List (AccountId × Nat) := []

/-- `unified_scan_loop` when it is called. -/
def ScanCoordinator.unifiedScanLoop (co : ScanCoordinator) (db : Db)
    (targets : List AccountSyncTarget) : ScanLoop where
  db := db
  targets := targets
  blockProcessor :=
    { BlockProcessor.withEventSender (targets.map (fun target => (target.accountId, target.viewKey)))
        co.requiredConfirmations with webhookConfig := co.webhookConfig }

inductive ScanAction where
  /-- An iteration begins: was the token cancelled, and did the scanner connect (then with the tip
      that the node reports to it). -/
  | iterate (cancelled : Bool) (tip : Except String Nat)
  /-- The stream delivers a batch or an error, or it is closed. -/
  | receive (response : Option (Except String (List BlockScanResult)))
  /-- The database task of the next active account, with the statements it gets through. -/
  | processBlocks (now : Timestamp) (budget : Option Nat)
  /-- `monitor_if_needed` returns, and leaves a database. -/
  | monitorIfNeeded (result : Except WalletDbError Db)
  | pruneTips (budget : Option Nat)
  /-- `handle_reorgs` for the next account, with the answers of the node. -/
  | handleReorgs (getHeaderByHeight : HeaderSource) (now : Timestamp) (budget : Option Nat)
  /-- The poll interval is over, or the token was cancelled in it. -/
  | wake (cancelled : Bool)

/-- `global_next_block`. -/
def globalNextBlock (targets : List AccountSyncTarget) : Nat :=
  (targets.map (·.nextBlockToScan)).min?.getD 0

/-- The accounts that are active at the height. -/
def activeAccountIds (targets : List AccountSyncTarget) (height : Nat) : List AccountId :=
  (targets.filter (fun target => target.nextBlockToScan == height)).map (·.accountId)

/-- `next_horizon_height`: where the next account waits. -/
def nextHorizonHeight (targets : List AccountSyncTarget) (height : Nat) : Option Nat :=
  ((targets.map (·.nextBlockToScan)).filter (height < ·)).min?

/-- `end_height`: before the horizon, and within the limit of a partial scan. -/
def scanEndHeight (mode : ScanMode) (targets : List AccountSyncTarget)
    (totalScannedGlobally : Nat) : Option Nat :=
  let start := globalNextBlock targets
  let horizon := (nextHorizonHeight targets start).map (· - 1)
  match mode with
  | .partialScan maxBlocks =>
    let maxHeightToScan := saturatingAdd start maxBlocks - totalScannedGlobally
    match horizon with
    | some h => some (min h maxHeightToScan)
    | none => some maxHeightToScan
  | _ => horizon

/-- `effective_batch_size`. -/
def effectiveBatchSize (batchSize : Nat) (targets : List AccountSyncTarget) : Nat :=
  let start := globalNextBlock targets
  ((nextHorizonHeight targets start).map (fun h => min (h - start) batchSize)).getD batchSize

/-- The counter of the first target of the account. -/
def setNextBlockToScan (targets : List AccountSyncTarget) (accountId : AccountId) (height : Nat) :
    List AccountSyncTarget :=
  match targets with
  | [] => []
  | target :: rest =>
    if target.accountId = accountId then { target with nextBlockToScan := height } :: rest
    else target :: setNextBlockToScan rest accountId height

/-- The stream once it has delivered the batch. -/
def UtxoStream.delivered (stream : UtxoStream) (blocks : List BlockScanResult) : UtxoStream :=
  { stream with
    position := (blocks.getLast?.map (fun last => last.height + 1)).getD stream.position
    rolledBack := stream.rolledBack.filter (fun accountId =>
      !stream.activeAccountIds.contains accountId) }

/-- What `process_blocks` processes of a batch. -/
def processedHeights (blocks : List BlockScanResult) (accountId : AccountId)
    (nextBlockToScan : Nat) : List (AccountId × Nat) :=
  (blocks.filter (fun block => nextBlockToScan ≤ block.height)).map
    (fun block => (accountId, block.height))

namespace ScanLoop

/-- The targets when an iteration begins, and the stream that it opens. -/
def openStream (co : ScanCoordinator) (s : ScanLoop) :
    Except ScanError (ScannerStateManager × UtxoStream) := do
  let start := globalNextBlock s.targets
  let active := activeAccountIds s.targets start
  let (stateManager, config) ← s.stateManager.getScannerAndConfig active start
    (scanEndHeight co.mode s.targets s.totalScannedGlobally)
    (effectiveBatchSize co.batchSize s.targets) s.targets
  -- `scan_blocks` refuses an empty range
  if config.endHeight.any (· < config.startHeight) then
    .error (.intermittent "start_height cannot be greater than end_height")
  else
    pure (stateManager, {
      activeAccountIds := active
      config
      nextHorizonHeight := nextHorizonHeight s.targets start
      position := start })

/-- After the loop over the stream, which ends with the empty batch or when the stream is closed. -/
def streamEnded (co : ScanCoordinator) (s : ScanLoop) (isBatchEmpty : Bool) : ScanLoop :=
  let finish : ScanLoop :=
    if isBatchEmpty then
      match co.mode with
      | .continuous =>
        { s with
          targets := s.targets.map (fun target =>
            { target with nextBlockToScan := target.nextBlockToScan - 1 })
          phase := .wait }
      | _ => { s with phase := .returned false }
    else { s with phase := .iterate }
  match co.mode with
  | .partialScan maxBlocks =>
    if maxBlocks ≤ s.totalScannedGlobally then { s with phase := .returned true } else finish
  | _ => finish

/-- `check_global_reorgs` with the accounts still to check; after the last it is back at the stream,
    or at the head of the loop. -/
def checkGlobalReorgs (accountIds : List AccountId) (stream : Option UtxoStream) : LoopPhase :=
  match accountIds with
  | [] => stream.elim .iterate .receive
  | _ => .checkReorgs accountIds stream

/-- On to the next active account, or past the batch. -/
def nextAccount (co : ScanCoordinator) (s : ScanLoop) (stream : UtxoStream)
    (blocks : List BlockScanResult) : List AccountId → ScanLoop
  | [] =>
    let total := s.totalScannedGlobally + blocks.length
    let since := s.blocksSinceReorgCheck + blocks.length
    if co.reorgCheckInterval ≤ since then
      { s with
        totalScannedGlobally := total
        blocksSinceReorgCheck := 0
        phase := checkGlobalReorgs (s.targets.map (·.accountId)) (some stream) }
    else
      { s with
        totalScannedGlobally := total
        blocksSinceReorgCheck := since
        phase := .receive stream }
  | accountIds => { s with phase := .processBatch stream blocks accountIds }

/-- The database task of one account is done: its counter moves on, and the guard on the last height
    of the batch reads it. -/
def batchProcessed (co : ScanCoordinator) (s : ScanLoop) (stream : UtxoStream)
    (blocks : List BlockScanResult) (accountIds : List AccountId) (accountId : AccountId) :
    ScanLoop :=
  match blocks.getLast? with
  | none => s.nextAccount co stream blocks accountIds
  | some last =>
    let s := { s with targets := setNextBlockToScan s.targets accountId (last.height + 1) }
    match findTarget s.targets accountId with
    | none => s.nextAccount co stream blocks accountIds
    | some target =>
      if target.nextBlockToScan ≤ last.height then
        { s with phase := .monitor stream blocks accountIds accountId last.height }
      else s.nextAccount co stream blocks accountIds

/-- The check of one account is done. -/
def checkedAccount (s : ScanLoop) (stream : Option UtxoStream) (accountIds : List AccountId)
    (accountId : AccountId) (result : ReorgResult) : ScanLoop :=
  let s :=
    if result.reorgInformation.isSome then
      { s with
        targets := setNextBlockToScan s.targets accountId result.resumeHeight
        scanned := s.scanned.filter (fun p => p.1 != accountId || p.2 < result.resumeHeight) }
    else s
  let stream :=
    if result.reorgInformation.isSome then
      stream.map (fun stream => { stream with rolledBack := accountId :: stream.rolledBack })
    else stream
  { s with phase := checkGlobalReorgs accountIds stream }

/-- One step of the loop, `none` when it does not wait for this. -/
def step (co : ScanCoordinator) (s : ScanLoop) : ScanAction → Option ScanLoop
  | .iterate cancelled tip =>
    match s.phase with
    | .iterate =>
      if cancelled then some { s with phase := .returned true }
      else
        match s.openStream co, tip with
        | .error e, _ => some { s with phase := .failed e }
        | .ok _, .error message => some { s with phase := .failed (.intermittent message) }
        | .ok (stateManager, stream), .ok tipHeight =>
          some { s with stateManager, tipHeight, phase := .receive stream }
    | _ => none
  | .receive response =>
    match s.phase with
    | .receive stream =>
      match response with
      | none => some (s.streamEnded co false)
      | some (.error message) => some { s with phase := .failed (.intermittent message) }
      | some (.ok []) => some (s.streamEnded co true)
      | some (.ok blocks) =>
        some (s.nextAccount co (stream.delivered blocks) blocks stream.activeAccountIds)
    | _ => none
  | .processBlocks now budget =>
    match s.phase with
    | .processBatch stream blocks (accountId :: accountIds) =>
      match findTarget s.targets accountId with
      | none => some { s with phase := .failed (.fatal s!"Unknown active account id: {accountId}") }
      | some target =>
        match processBlocks co.env s.blockProcessor now blocks accountId target.nextBlockToScan
            ⟨s.db, budget⟩ with
        | .ok _ c =>
          some ({ s with
            db := c.store
            scanned := s.scanned ++ processedHeights blocks accountId target.nextBlockToScan
            }.batchProcessed co stream blocks accountIds accountId)
        | .error e c => some { s with db := c.store, phase := .failed (.dbError e) }
    | _ => none
  | .monitorIfNeeded result =>
    match s.phase with
    | .monitor stream blocks accountIds accountId lastHeight =>
      match result with
      | .ok db => some { s with db, phase := .prune stream blocks accountIds accountId lastHeight }
      | .error e => some { s with phase := .failed (.fatalDb e) }
    | _ => none
  | .pruneTips budget =>
    match s.phase with
    | .prune stream blocks accountIds accountId lastHeight =>
      match MinotariWallet.pruneTips accountId lastHeight ⟨s.db, budget⟩ with
      | .ok _ c => some ({ s with db := c.store }.nextAccount co stream blocks accountIds)
      | .error e c => some { s with db := c.store, phase := .failed (.dbError e) }
    | _ => none
  | .handleReorgs getHeaderByHeight now budget =>
    match s.phase with
    | .checkReorgs (accountId :: accountIds) stream =>
      match MinotariWallet.handleReorgs getHeaderByHeight accountId co.webhookConfig now
          ⟨s.db, budget⟩ with
      | .ok result c =>
        some ({ s with db := c.store }.checkedAccount stream accountIds accountId result)
      | .error e c => some { s with db := c.store, phase := .failed (.fatalDb e) }
    | _ => none
  | .wake cancelled =>
    match s.phase with
    | .wait =>
      if cancelled then some { s with phase := .iterate }
      else some { s with phase := checkGlobalReorgs (s.targets.map (·.accountId)) none }
    | _ => none

end ScanLoop

end MinotariWallet
