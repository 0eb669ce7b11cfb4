import MinotariWallet.Lib.Channel
import MinotariWallet.Scan.Coordinator

set_option autoImplicit false

/-! # `scan_blocks` of `minotari-scanning/src/scanning/http/scanner.rs`

`HttpBlockchainScanner::scan_blocks` spawns a task that downloads pages of blocks and a task that
looks through them for outputs of the wallet, and returns the receiver of a channel that both send
on. The machine below takes one step for each answer of the node and each message sent or received,
in any order of the two tasks and the consumer. -/

namespace MinotariWallet

/-- The errors of the scanning crate. -/
inductive WalletError where
  | operationNotSupported (message : String)
  | blockchainConnectionFailed (message : String)
  | configurationError (message : String)
  | conversionError (message : String)
  | dataError (message : String)
  | timeout (message : String)
deriving DecidableEq

/-- A block of a page, its header hash and inputs converted. What the key managers find in its
    outputs is an answer to the processing task. -/
structure BlockUtxoInfo where
  height : Nat
  headerHash : FixedHash
  inputs : List FixedHash
  minedTimestamp : Nat
deriving DecidableEq

/-- The answer of the `sync_utxos_by_block` endpoint. -/
structure SyncUtxosByBlockResponse where
  blocks : List BlockUtxoInfo
  hasNextPage : Bool
  /-- `none` for the empty byte string. -/
  nextHeaderToScan : Option FixedHash
deriving DecidableEq

/-! ## `InProgressScan` -/

structure InProgressScan where
  config : Option ScanConfig
  header : Option FixedHash := none
  currentPage : Nat := 0
deriving DecidableEq

namespace InProgressScan

def clear (_ : InProgressScan) : InProgressScan := { config := none }

def isActive (scan : InProgressScan) : Bool := scan.config.isSome

def incrementPage (scan : InProgressScan) : InProgressScan :=
  { scan with currentPage := scan.currentPage + 1 }

def setNextRequest (scan : InProgressScan) (header : FixedHash) : InProgressScan :=
  { scan with header := some header, currentPage := 0 }

end InProgressScan

/-- The loop of `fetch_block_range` over the blocks of a page: it stops the scan at a block above
    the end height, which it still keeps. -/
def checkEndHeight (scan : InProgressScan) (moreBlocks hasNextPage : Bool) :
    List BlockUtxoInfo → InProgressScan × Bool × Bool
  | [] => (scan, moreBlocks, hasNextPage)
  | block :: blocks =>
    match scan.config.bind (·.endHeight) with
    | some endHeight =>
      if endHeight < block.height then checkEndHeight scan.clear false false blocks
      else checkEndHeight scan moreBlocks hasNextPage blocks
    | none => checkEndHeight scan moreBlocks hasNextPage blocks

/-- Where the next request of `fetch_block_range` goes, once a page is read. -/
def nextRequest (scan : InProgressScan) (moreBlocks hasNextPage : Bool)
    (nextHeaderToScan : Option FixedHash) : Bool × InProgressScan :=
  if !hasNextPage && scan.isActive then
    match nextHeaderToScan with
    | none => (false, scan.clear)
    | some next =>
      -- a server that names the same header again would keep the loop going
      if some next = scan.header then (false, scan.clear)
      else (moreBlocks, scan.setNextRequest next)
  else (moreBlocks, scan)

/-- The request that `fetch_block_range` begins with. `startHeader` answers for the header at the
    start height, which is asked for only when no header is known yet. -/
def firstRequest (scan : InProgressScan)
    (startHeader : Except WalletError (Option BlockHeaderInfo)) : Except WalletError InProgressScan :=
  match scan.header with
  | some _ => .ok scan
  | none =>
    match startHeader with
    | .error e => .error e
    | .ok none =>
      .error (.blockchainConnectionFailed
        s!"Failed to get header at height {(scan.config.map (·.startHeight)).getD 0}")
    | .ok (some header) => .ok (scan.setNextRequest header.hash)

/-- What `fetch_block_range` does with a page: its blocks, whether there are more, and the scan. -/
def readPage (scan : InProgressScan) (response : SyncUtxosByBlockResponse) :
    List BlockUtxoInfo × Bool × InProgressScan :=
  if response.blocks.isEmpty then ([], false, scan)
  else
    let (scan, moreBlocks, hasNextPage) :=
      checkEndHeight scan true response.hasNextPage response.blocks
    (response.blocks,
      nextRequest scan.incrementPage moreBlocks hasNextPage response.nextHeaderToScan)

/-- `fetch_block_range`. -/
def fetchBlockRange (scan : InProgressScan)
    (startHeader : Except WalletError (Option BlockHeaderInfo))
    (response : Except WalletError SyncUtxosByBlockResponse) :
    Except WalletError (List BlockUtxoInfo × Bool × InProgressScan) := do
  let scan ← firstRequest scan startHeader
  let response ← response
  pure (readPage scan response)

/-- An empty page is the last one. -/
theorem fetchBlockRange_empty {scan scan' : InProgressScan}
    {startHeader : Except WalletError (Option BlockHeaderInfo)}
    {response : Except WalletError SyncUtxosByBlockResponse} {moreBlocks : Bool}
    (h : fetchBlockRange scan startHeader response = .ok ([], moreBlocks, scan')) :
    moreBlocks = false := by
  unfold fetchBlockRange at h
  simp only [bind, Except.bind] at h
  split at h
  · cases h
  · split at h
    · cases h
    · next page =>
        simp only [pure, Except.pure, readPage, Except.ok.injEq] at h
        split at h
        · simpa [eq_comm] using congrArg (·.2.1) h
        · next hblocks =>
            have hnil : page.blocks = [] := congrArg (·.1) h
            simp [hnil] at hblocks

/-! ## The processing of a page -/

/-- The result for a block, `recognise` being what the key managers find in it. -/
def scanBlock (recognise : BlockUtxoInfo →
    Except WalletError (List (FixedHash × WalletOutput × Nat))) (block : BlockUtxoInfo) :
    Except WalletError BlockScanResult := do
  let walletOutputs ← recognise block
  pure {
    height := block.height
    blockHash := block.headerHash
    walletOutputs
    inputs := block.inputs
    minedTimestamp := block.minedTimestamp }

/-- The results for the blocks of a page, in the order in which the pool and the requests to the node
    get done with them, and then sorted. -/
def processBatch (recognise : BlockUtxoInfo →
    Except WalletError (List (FixedHash × WalletOutput × Nat))) (order : List BlockUtxoInfo) :
    Except WalletError (List BlockScanResult) := do
  let results ← order.mapM (scanBlock recognise)
  pure (results.mergeSort (fun a b => a.height ≤ b.height))

/-- The batch has the blocks of the page, lowest first. -/
structure ScannedPage (page : List BlockUtxoInfo) (batch : List BlockScanResult) : Prop where
  blocks : (batch.map (fun b => (b.height, b.blockHash))).Perm
    (page.map (fun b => (b.height, b.headerHash)))
  sorted : batch.Pairwise (fun a b => a.height ≤ b.height)

theorem ScannedPage.length {page : List BlockUtxoInfo} {batch : List BlockScanResult}
    (h : ScannedPage page batch) : batch.length = page.length := by
  simpa using h.blocks.length_eq

theorem ScannedPage.nil_iff {page : List BlockUtxoInfo} {batch : List BlockScanResult}
    (h : ScannedPage page batch) : batch = [] ↔ page = [] := by
  rw [← List.length_eq_zero_iff, h.length, List.length_eq_zero_iff]

/-- `sort_by_key` by height. -/
theorem pairwise_sortByHeight (results : List BlockScanResult) :
    (results.mergeSort (fun a b => a.height ≤ b.height)).Pairwise
      (fun a b => a.height ≤ b.height) := by
  have htrans : ∀ a b c : BlockScanResult, decide (a.height ≤ b.height) = true →
      decide (b.height ≤ c.height) = true → decide (a.height ≤ c.height) = true := by
    intro a b c hab hbc
    simp only [decide_eq_true_eq] at *
    omega
  have htotal : ∀ a b : BlockScanResult,
      (decide (a.height ≤ b.height) || decide (b.height ≤ a.height)) = true := by
    intro a b
    simp only [Bool.or_eq_true, decide_eq_true_eq]
    omega
  exact (List.pairwise_mergeSort htrans htotal results).imp (fun hab => by simpa using hab)

theorem scanBlock_ok {recognise : BlockUtxoInfo →
      Except WalletError (List (FixedHash × WalletOutput × Nat))}
    {block : BlockUtxoInfo} {result : BlockScanResult} (h : scanBlock recognise block = .ok result) :
    result.height = block.height ∧ result.blockHash = block.headerHash := by
  unfold scanBlock at h
  cases hfound : recognise block with
  | error e => simp [hfound, bind, Except.bind] at h
  | ok walletOutputs =>
      simp only [hfound, bind, Except.bind, pure, Except.pure, Except.ok.injEq] at h
      subst h
      exact ⟨rfl, rfl⟩

theorem processBatch_ok {recognise : BlockUtxoInfo →
      Except WalletError (List (FixedHash × WalletOutput × Nat))}
    {order page : List BlockUtxoInfo} {batch : List BlockScanResult} (horder : order.Perm page)
    (h : processBatch recognise order = .ok batch) : ScannedPage page batch := by
  unfold processBatch at h
  cases hresults : order.mapM (scanBlock recognise) with
  | error e => simp [hresults, bind, Except.bind] at h
  | ok results =>
      simp only [hresults, bind, Except.bind, pure, Except.pure, Except.ok.injEq] at h
      subst h
      have hplaces : results.map (fun b => (b.height, b.blockHash)) =
          order.map (fun b => (b.height, b.headerHash)) := by
        rw [← List.forall₂_eq_eq_eq, List.forall₂_map_left_iff, List.forall₂_map_right_iff]
        refine (Exec.mapM_ok_iff.mp hresults).flip.imp (fun result block hblock => ?_)
        obtain ⟨hheight, hhash⟩ := scanBlock_ok hblock
        rw [hheight, hhash]
      constructor
      · have hsort := (List.mergeSort_perm results (fun a b => a.height ≤ b.height)).map
          (fun b => (b.height, b.blockHash))
        rw [hplaces] at hsort
        exact hsort.trans (horder.map _)
      · exact pairwise_sortByHeight results

/-! ## The two tasks and the consumer -/

/-- Where the download task is. -/
inductive DownloadTask where
  /-- Asking for the tip. -/
  | tipInfo
  | fetching
  /-- Handing a page over to the processing task. -/
  | sendBlocks (blocks : List BlockUtxoInfo) (moreBlocks : Bool)
  /-- Sending the empty batch to the consumer. -/
  | sendEnd
  | sendError (e : WalletError)
  | done
  /-- Returned because the request for the tip failed. -/
  | noTip
deriving DecidableEq

/-- Where the processing task is. -/
inductive ProcessingTask where
  | buildPool
  | receiving
  | processing (page : List BlockUtxoInfo)
  /-- Sending what came of a page. -/
  | sendResult (page : List BlockUtxoInfo) (result : Except WalletError (List BlockScanResult))
  /-- Sending that there is no thread pool. -/
  | sendPoolError (e : WalletError)
  /-- Returned after an error. -/
  | failed
  /-- Returned because no more pages can come. -/
  | done
deriving DecidableEq

/-- Where the receiver of the results is. -/
inductive StreamConsumer where
  | receiving
  /-- It has received the empty batch. -/
  | finished
  | failed (e : WalletError)
  /-- The channel was closed and empty. -/
  | closed
  /-- It has left the stream before its end. -/
  | left
deriving DecidableEq

/-- `mpsc::channel(1000)`. -/
def channelCapacity : Nat := 1000

structure ScanStream where
  startHeight : Nat
  /-- `current_in_progress` of the download scanner. -/
  currentInProgress : InProgressScan
  download : DownloadTask
  processing : ProcessingTask
  consumer : StreamConsumer
  /-- From `send_scan_result` to `rec_scan_result`. -/
  scanResult : Channel (List BlockUtxoInfo) channelCapacity
  /-- From `send_download` and its clone to `rec_download`. -/
  results : Channel (Except WalletError (List BlockScanResult)) channelCapacity
  /-- The pages fetched so far; no task reads this. -/
  fetched : List (List BlockUtxoInfo)
  /-- The batches that the consumer has received so far, but for the empty one. -/
  received : List (List BlockScanResult)

/-- What happens next: an answer of the node to the download task, a message of it, what comes of
    building the thread pool, a message to or from the processing task, its work on a page, and the
    consumer. -/
inductive StreamAction where
  | tipInfo (bestBlockHeight : Except WalletError Nat)
  | fetch (startHeader : Except WalletError (Option BlockHeaderInfo))
      (response : Except WalletError SyncUtxosByBlockResponse)
  | downloadSend
  | buildPool (error : Option WalletError)
  | processingReceive
  | process (order : List BlockUtxoInfo)
      (recognise : BlockUtxoInfo → Except WalletError (List (FixedHash × WalletOutput × Nat)))
  | processingSend
  | receive
  | leave

def DownloadTask.returned : DownloadTask → Bool
  | .done => true
  | .noTip => true
  | _ => false

def ProcessingTask.returned : ProcessingTask → Bool
  | .failed => true
  | .done => true
  | _ => false

namespace ScanStream

/-- `scan_blocks`, until the two tasks are spawned. -/
def scanBlocks (config : ScanConfig) : Except WalletError ScanStream :=
  if config.endHeight.any (· < config.startHeight) then
    .error (.operationNotSupported "start_height cannot be greater than end_height")
  else .ok {
    startHeight := config.startHeight
    currentInProgress := { config := some config }
    download := .tipInfo
    processing := .buildPool
    consumer := .receiving
    scanResult := .empty _ _
    results := .empty _ _
    fetched := []
    received := [] }

/-- A send on the results channel: it fails when the consumer is gone, and waits while it is full. -/
def sendResult (s : ScanStream) (result : Except WalletError (List BlockScanResult)) :
    Option ScanStream :=
  if s.consumer = .receiving then (s.results.send result).map (fun results => { s with results })
  else some s

def step (s : ScanStream) : StreamAction → Option ScanStream
  | .tipInfo answer =>
    match s.download, answer with
    | .tipInfo, .error _ => some { s with download := .noTip }
    | .tipInfo, .ok bestBlockHeight =>
      if bestBlockHeight < s.startHeight then some { s with download := .sendEnd }
      else some { s with download := .fetching }
    | _, _ => none
  | .fetch startHeader response =>
    match s.download, fetchBlockRange s.currentInProgress startHeader response with
    | .fetching, .ok (blocks, moreBlocks, scan) =>
      some { s with
        currentInProgress := scan
        download := .sendBlocks blocks moreBlocks
        fetched := s.fetched ++ [blocks] }
    | .fetching, .error e => some { s with download := .sendError e }
    | _, _ => none
  | .downloadSend =>
    match s.download with
    | .sendBlocks blocks moreBlocks =>
      if s.processing.returned then some { s with download := .done }
      else (s.scanResult.send blocks).map (fun scanResult =>
        { s with
          scanResult
          download := if moreBlocks then .fetching else .sendEnd })
    | .sendEnd => (s.sendResult (.ok [])).map (fun s => { s with download := .done })
    | .sendError e => (s.sendResult (.error e)).map (fun s => { s with download := .done })
    | _ => none
  | .buildPool error =>
    match s.processing, error with
    | .buildPool, none => some { s with processing := .receiving }
    | .buildPool, some e => some { s with processing := .sendPoolError e }
    | _, _ => none
  | .processingReceive =>
    match s.processing, s.scanResult.recv with
    | .receiving, some (page, scanResult) =>
      some { s with scanResult, processing := .processing page }
    | .receiving, none => if s.download.returned then some { s with processing := .done } else none
    | _, _ => none
  | .process order recognise =>
    match s.processing with
    | .processing page =>
      if order.isPerm page then
        some { s with processing := .sendResult page (processBatch recognise order) }
      else none
    | _ => none
  | .processingSend =>
    match s.processing with
    | .sendResult _ result =>
      (s.sendResult result).map (fun s =>
        { s with processing := if result.isOk then .receiving else .failed })
    | .sendPoolError e => (s.sendResult (.error e)).map (fun s => { s with processing := .failed })
    | _ => none
  | .receive =>
    match s.consumer, s.results.recv with
    | .receiving, some (.ok [], results) => some { s with results, consumer := .finished }
    | .receiving, some (.ok batch, results) =>
      some { s with results, received := s.received ++ [batch] }
    | .receiving, some (.error e, results) => some { s with results, consumer := .failed e }
    | .receiving, none =>
      if s.download.returned && s.processing.returned then some { s with consumer := .closed }
      else none
    | _, _ => none
  | .leave => if s.consumer = .receiving then some { s with consumer := .left } else none

end ScanStream

end MinotariWallet
