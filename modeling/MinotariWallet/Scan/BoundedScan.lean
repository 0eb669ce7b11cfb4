import MinotariWallet.Scan.EndOfStream
import MinotariWallet.Scan.PartialScan

set_option autoImplicit false

/-! # The end height of a bounded scan

`fetch_block_range` looks at the end height while it reads a page, and it keeps the page. What the
gRPC scanner asks the node for ends at the end height. -/

namespace MinotariWallet

/-! ## The node -/

/-- `SYNC_UTXOS_BY_BLOCK_PAGE_LIMIT`. -/
def syncUtxosByBlockPageLimit : Nat := 50

/-- A chain, by the hashes of its headers. -/
structure ChainNode where
  tip : Nat
  headerHash : Nat → FixedHash
  headerHash_inj : ∀ i ≤ tip, ∀ j ≤ tip, headerHash i = headerHash j → i = j

/-- The blocks of the chain from the height on. -/
def ChainNode.places (node : ChainNode) (height count : Nat) : List (Nat × FixedHash) :=
  (List.range' height count).map (fun k => (k, node.headerHash k))

/-- A page of the blocks from the header at the height on: it holds blocks that follow each other
    from where the page begins, and it is empty only past the tip. A page that is not followed by
    another one for the same header names the header after it. -/
def ChainNode.Answers (node : ChainNode) (limit height page : Nat)
    (response : SyncUtxosByBlockResponse) : Prop :=
  let next := height + page * limit + response.blocks.length
  if node.tip < height + page * limit then response.blocks = []
  else
    response.blocks ≠ [] ∧ next ≤ node.tip + 1 ∧
      response.blocks.map (fun b => (b.height, b.headerHash)) =
        node.places (height + page * limit) response.blocks.length ∧
      if response.hasNextPage then next = height + (page + 1) * limit
      else response.nextHeaderToScan = if next ≤ node.tip then some (node.headerHash next) else none

instance (node : ChainNode) (limit height page : Nat) (response : SyncUtxosByBlockResponse) :
    Decidable (node.Answers limit height page response) := by
  unfold ChainNode.Answers
  infer_instance

/-- The heights that the gRPC scanner asks for: `start_height..=end_height`, with the end height no
    higher than the tip. -/
def ScanConfig.heights (config : ScanConfig) (tip : Nat) : List Nat :=
  List.range' config.startHeight (config.lastDelivered tip + 1 - config.startHeight)

namespace ChainNode

variable {node : ChainNode} {height count more : Nat}

theorem places_append : node.places height count ++ node.places (height + count) more =
    node.places height (count + more) := by
  rw [places, places, ← List.map_append, List.range'_append_1]
  rfl

end ChainNode

/-! ## Reading a page -/

/-- `limit` of `fetch_block_range`. -/
def InProgressScan.limit (scan : InProgressScan) : Nat :=
  (scan.config.map (·.batchSize)).getD syncUtxosByBlockPageLimit

section Page

variable {scan : InProgressScan} {config : ScanConfig} {moreBlocks hasNextPage : Bool}
  {blocks : List BlockUtxoInfo}

theorem checkEndHeight_none (h : scan.config.bind (·.endHeight) = none) :
    checkEndHeight scan moreBlocks hasNextPage blocks = (scan, moreBlocks, hasNextPage) := by
  induction blocks with
  | nil => rfl
  | cons block blocks ih =>
      unfold checkEndHeight
      simp only [h]
      exact ih

/-- Once a block is above the end height, the scan is over. -/
theorem checkEndHeight_some {endHeight : Nat}
    (h : scan.config.bind (·.endHeight) = some endHeight) :
    checkEndHeight scan moreBlocks hasNextPage blocks =
      if ∃ block ∈ blocks, endHeight < block.height then (scan.clear, false, false)
      else (scan, moreBlocks, hasNextPage) := by
  induction blocks with
  | nil => simp [checkEndHeight]
  | cons block blocks ih =>
      unfold checkEndHeight
      simp only [h]
      by_cases hlt : endHeight < block.height
      · rw [if_pos hlt, checkEndHeight_none rfl, if_pos ⟨block, List.mem_cons_self, hlt⟩]
      · rw [if_neg hlt, ih]
        simp [hlt]

end Page

/-! ## Where the download is -/

section Paging

variable {node : ChainNode} {config : ScanConfig} {scan scan' : InProgressScan}
  {fetched : List (List BlockUtxoInfo)} {next height : Nat}

/-- The pages hold the blocks of the chain from the start height up to the height. -/
structure FetchedUpTo (node : ChainNode) (config : ScanConfig)
    (fetched : List (List BlockUtxoInfo)) (next : Nat) : Prop where
  start : config.startHeight ≤ next
  places : fetched.flatten.map (fun b => (b.height, b.headerHash)) =
    node.places config.startHeight (next - config.startHeight)

/-- The request in hand is for the block at the height. -/
def Requests (node : ChainNode) (scan : InProgressScan) (next : Nat) : Prop :=
  ∃ height ≤ node.tip, scan.header = some (node.headerHash height) ∧
    next = height + scan.currentPage * scan.limit

/-- The scan goes on with the next block, which is not past the one after the end height. -/
structure Continues (node : ChainNode) (config : ScanConfig) (scan : InProgressScan)
    (fetched : List (List BlockUtxoInfo)) (next : Nat) : Prop where
  upTo : FetchedUpTo node config fetched next
  start : config.startHeight ≤ node.tip
  tip : next ≤ node.tip + 1
  endHeight : ∀ endHeight ∈ config.endHeight, next ≤ endHeight + 1
  active : scan.config = some config
  request : (scan.header = none ∧ scan.currentPage = 0 ∧ next = config.startHeight) ∨
    Requests node scan next

/-- The download is over: at the tip, or past the end height. -/
inductive DownloadEnded (node : ChainNode) (config : ScanConfig)
    (fetched : List (List BlockUtxoInfo)) : Prop where
  | nothing (hstart : node.tip < config.startHeight) (hfetched : fetched.flatten = [])
  | atTip (hstart : config.startHeight ≤ node.tip)
      (hupTo : FetchedUpTo node config fetched (node.tip + 1))
  | pastEnd (next endHeight : Nat) (hupTo : FetchedUpTo node config fetched next)
      (hnext : next ≤ node.tip + 1) (hend : config.endHeight = some endHeight)
      (hpast : endHeight + 1 < next)

theorem firstRequest_continues {startHeader : Except WalletError (Option BlockHeaderInfo)}
    (h : Continues node config scan fetched next)
    (hheader : scan.header = none →
      startHeader = .ok (some ⟨config.startHeight, node.headerHash config.startHeight⟩)) :
    ∃ scan', firstRequest scan startHeader = .ok scan' ∧ scan'.config = some config ∧
      Requests node scan' next := by
  unfold firstRequest
  rcases h.request with ⟨hnone, hpage, hnext⟩ | hrequest
  · rw [hnone, hheader hnone]
    refine ⟨_, rfl, h.active, config.startHeight, h.start, rfl, ?_⟩
    simp [InProgressScan.setNextRequest, hnext]
  · obtain ⟨height, hheight, hsome, hnext⟩ := hrequest
    rw [hsome]
    exact ⟨scan, rfl, h.active, height, hheight, hsome, hnext⟩

theorem FetchedUpTo.append (h : FetchedUpTo node config fetched next) {page : List BlockUtxoInfo}
    (hpage : page.map (fun b => (b.height, b.headerHash)) = node.places next page.length) :
    FetchedUpTo node config (fetched ++ [page]) (next + page.length) := by
  obtain ⟨count, rfl⟩ := Nat.exists_eq_add_of_le h.start
  have hold := h.places
  refine ⟨by omega, ?_⟩
  rw [Nat.add_sub_cancel_left] at hold
  rw [List.flatten_append, List.map_append, hold, List.flatten_singleton, hpage,
    ChainNode.places_append, Nat.add_assoc, Nat.add_sub_cancel_left]

theorem mem_height_of_places {page : List BlockUtxoInfo} {count : Nat}
    (h : page.map (fun b => (b.height, b.headerHash)) = node.places next count) (k : Nat) :
    (∃ b ∈ page, b.height = k) ↔ next ≤ k ∧ k < next + count := by
  have hheights : page.map (·.height) = List.range' next count := by
    simpa [ChainNode.places, Function.comp_def] using congrArg (List.map Prod.fst) h
  rw [← List.mem_range'_1, ← hheights, List.mem_map]

/-- Which blocks of a page are kept does not depend on the end height, only what comes after. -/
theorem readPage_eq {response : SyncUtxosByBlockResponse} (hne : response.blocks ≠ [])
    (hactive : scan.config = some config) :
    readPage scan response = (response.blocks,
      if ∃ endHeight, config.endHeight = some endHeight ∧
          ∃ block ∈ response.blocks, endHeight < block.height then
        (false, scan.clear.incrementPage)
      else nextRequest scan.incrementPage true response.hasNextPage response.nextHeaderToScan) := by
  unfold readPage
  rw [if_neg (by simpa using hne)]
  cases hend : config.endHeight with
  | none =>
      rw [checkEndHeight_none (by rw [hactive]; exact hend)]
      simp
  | some endHeight =>
      rw [checkEndHeight_some (by rw [hactive]; exact hend)]
      by_cases hpast : ∃ block ∈ response.blocks, endHeight < block.height
      · rw [if_pos hpast, if_pos ⟨endHeight, rfl, hpast⟩]
        rfl
      · rw [if_neg hpast, if_neg (by simpa using hpast)]

/-- A page of the chain is read: the scan goes on after it, or it is over. -/
theorem readPage_continues {response : SyncUtxosByBlockResponse}
    (hupTo : FetchedUpTo node config fetched next) (hstart : config.startHeight ≤ node.tip)
    (htip : next ≤ node.tip + 1) (hend : ∀ endHeight ∈ config.endHeight, next ≤ endHeight + 1)
    (hactive : scan.config = some config) {height : Nat} (hheight : height ≤ node.tip)
    (hheader : scan.header = some (node.headerHash height))
    (hnext : next = height + scan.currentPage * scan.limit)
    (hanswer : node.Answers scan.limit height scan.currentPage response)
    {page : List BlockUtxoInfo} {moreBlocks : Bool}
    (h : readPage scan response = (page, moreBlocks, scan')) :
    (page = [] → moreBlocks = false) ∧
      (moreBlocks = false → DownloadEnded node config (fetched ++ [page])) ∧
      (moreBlocks = true → ∃ next', Continues node config scan' (fetched ++ [page]) next') := by
  unfold ChainNode.Answers at hanswer
  rw [← hnext] at hanswer
  dsimp only at hanswer
  split at hanswer
  · -- the page is empty: the last one ended at the tip
    next hlt =>
      rw [readPage, hanswer] at h
      cases h
      have hupTo' : FetchedUpTo node config (fetched ++ [[]]) next := hupTo.append rfl
      refine ⟨fun _ => rfl, fun _ => .atTip hstart ?_, by rintro ⟨⟩⟩
      obtain rfl : next = node.tip + 1 := by omega
      exact hupTo'
  · next hge =>
      obtain ⟨hne, hle, hplaces, hmore⟩ := hanswer
      have hupTo' := hupTo.append hplaces
      have hheights := mem_height_of_places hplaces
      have hlength := List.length_pos_iff.mpr hne
      rw [readPage_eq hne hactive] at h
      split at h
      · -- the page is kept although it goes past the end height
        next hpast =>
          obtain ⟨endHeight, hend', block, hblock, hlt⟩ := hpast
          have := ((hheights block.height).mp ⟨block, hblock, rfl⟩).2
          cases h
          exact ⟨fun _ => rfl,
            fun _ => .pastEnd (next + response.blocks.length) endHeight hupTo' hle hend' (by omega),
            by rintro ⟨⟩⟩
      · next hwithin =>
          have hend' : ∀ endHeight ∈ config.endHeight,
              next + response.blocks.length ≤ endHeight + 1 := by
            intro endHeight hmem
            by_contra hlt
            obtain ⟨block, hblock, hlast⟩ :=
              (hheights (next + response.blocks.length - 1)).mpr (by omega)
            exact hwithin ⟨endHeight, hmem, block, hblock, by omega⟩
          unfold nextRequest at h
          cases hmorePages : response.hasNextPage with
          | true =>
              simp only [hmorePages, if_true] at hmore
              simp only [hmorePages, Bool.not_true, Bool.false_and, Bool.false_eq_true, if_false,
                Prod.mk.injEq] at h
              obtain ⟨rfl, rfl, rfl⟩ := h
              refine ⟨fun hnil => absurd hnil hne, by rintro ⟨⟩,
                fun _ => ⟨_, hupTo', hstart, hle, hend', hactive, Or.inr ?_⟩⟩
              exact ⟨height, hheight, hheader, hmore⟩
          | false =>
              simp only [hmorePages, Bool.false_eq_true, if_false] at hmore
              have hisActive : scan.incrementPage.isActive = true := by
                simp [InProgressScan.isActive, InProgressScan.incrementPage, hactive]
              simp only [hmorePages, hisActive, Bool.not_false, Bool.true_and, if_true, hmore] at h
              by_cases hlast : next + response.blocks.length ≤ node.tip
              · -- the header after the page is not the one that was asked for
                have hother : ¬some (node.headerHash (next + response.blocks.length)) =
                    scan.incrementPage.header := by
                  rw [InProgressScan.incrementPage, hheader, Option.some.injEq]
                  intro hsame
                  have := node.headerHash_inj _ hlast _ hheight hsame
                  omega
                simp only [if_pos hlast, if_neg hother, Prod.mk.injEq] at h
                obtain ⟨rfl, rfl, rfl⟩ := h
                refine ⟨fun hnil => absurd hnil hne, by rintro ⟨⟩,
                  fun _ => ⟨_, hupTo', hstart, hle, hend', hactive, Or.inr ?_⟩⟩
                exact ⟨_, hlast, rfl, by simp [InProgressScan.setNextRequest]⟩
              · simp only [if_neg hlast, Prod.mk.injEq] at h
                obtain ⟨rfl, rfl, rfl⟩ := h
                refine ⟨fun _ => rfl, fun _ => .atTip hstart ?_, by rintro ⟨⟩⟩
                obtain htip' : next + response.blocks.length = node.tip + 1 := by omega
                exact htip' ▸ hupTo'

end Paging

/-! ## What is delivered -/

section Delivery

variable {node : ChainNode} {config : ScanConfig}

/-- The end height is no lower than the tip. -/
def EndsAtTip (config : ScanConfig) (tip : Nat) : Prop :=
  ∀ endHeight ∈ config.endHeight, tip ≤ endHeight

instance (tip : Nat) : Decidable (EndsAtTip config tip) := by
  unfold EndsAtTip
  infer_instance

/-- The blocks are those of the chain at the heights that the gRPC scanner asks for, in the order of
    their heights. -/
def ExactlyInBounds (node : ChainNode) (config : ScanConfig) (blocks : List (Nat × FixedHash)) :
    Prop :=
  blocks = (config.heights node.tip).map (fun k => (k, node.headerHash k))

theorem places_inj {count count' : Nat} :
    node.places config.startHeight count = node.places config.startHeight count' ↔
      count = count' := by
  constructor
  · intro h
    simpa [ChainNode.places] using congrArg List.length h
  · rintro rfl
    rfl

theorem DownloadEnded.exactlyInBounds_iff {fetched : List (List BlockUtxoInfo)}
    (h : DownloadEnded node config fetched)
    (hrange : ∀ e ∈ config.endHeight, config.startHeight ≤ e) :
    ExactlyInBounds node config (fetched.flatten.map (fun b => (b.height, b.headerHash))) ↔
      EndsAtTip config node.tip := by
  unfold ExactlyInBounds ScanConfig.heights
  rw [show (List.range' config.startHeight (config.lastDelivered node.tip + 1 -
      config.startHeight)).map (fun k => (k, node.headerHash k)) = node.places config.startHeight
        (config.lastDelivered node.tip + 1 - config.startHeight) from rfl]
  unfold ScanConfig.lastDelivered EndsAtTip
  cases h with
  | nothing hstart hfetched =>
      have hnone : min (config.endHeight.getD node.tip) node.tip + 1 - config.startHeight = 0 := by
        omega
      rw [hfetched, hnone]
      refine iff_of_true rfl (fun e he => ?_)
      have := hrange e he
      omega
  | atTip hstart hupTo =>
      rw [hupTo.places, places_inj]
      cases hend : config.endHeight with
      | none => simp
      | some e =>
          have := hrange e hend
          simp only [Option.getD_some, Option.mem_some_iff, forall_eq']
          omega
  | pastEnd next endHeight hupTo hnext hend hpast =>
      have := hupTo.start
      have := hrange endHeight hend
      rw [hupTo.places, places_inj, hend]
      simp only [Option.getD_some, Option.mem_some_iff, forall_eq']
      omega

/-- The batches of pages of a chain are in the order of the chain. -/
theorem Delivered.places {fetched : List (List BlockUtxoInfo)}
    {received : List (List BlockScanResult)} {height count : Nat} (h : Delivered fetched received)
    (hplaces : fetched.flatten.map (fun b => (b.height, b.headerHash)) = node.places height count) :
    received.flatten.map (fun b => (b.height, b.blockHash)) = node.places height count := by
  have hperm : (received.flatten.map (fun b => (b.height, b.blockHash))).Perm
      (fetched.flatten.map (fun b => (b.height, b.headerHash))) := by
    rw [← List.flatten_filter_ne_nil (L := fetched)]
    unfold Delivered at h
    generalize fetched.filter (· ≠ []) = pages at h
    induction h with
    | nil => exact .rfl
    | cons hpage hrest ih =>
        simp only [List.flatten_cons, List.map_append]
        exact hpage.blocks.append ih
  have hheights : (fetched.flatten.map (fun b => b.height)) = List.range' height count := by
    simpa [ChainNode.places, Function.comp_def] using congrArg (List.map Prod.fst) hplaces
  have hascending : AscendingPages fetched := by
    have hsorted : (fetched.flatten.map (fun b => b.height)).Pairwise (· < ·) := by
      rw [hheights]
      exact List.pairwise_lt_range'
    exact (List.pairwise_flatten.mp (List.pairwise_map.mp hsorted)).2
  have hreceived : (received.flatten.map (fun b => (b.height, b.blockHash))).Pairwise
      (fun p q => p.1 ≤ q.1) :=
    List.pairwise_map.mpr (h.ascending hascending)
  have hchain : (node.places height count).Pairwise (fun p q => p.1 ≤ q.1) :=
    List.pairwise_map.mpr ((List.pairwise_lt_range').imp Nat.le_of_lt)
  rw [hplaces] at hperm
  refine List.Perm.eq_of_pairwise (fun p q hp hq hle hge => ?_) hreceived hchain hperm
  -- two blocks of the chain at one height are one block
  obtain ⟨i, -, rfl⟩ := List.mem_map.mp (hperm.subset hp)
  obtain ⟨j, -, rfl⟩ := List.mem_map.mp hq
  obtain rfl : i = j := Nat.le_antisymm hle hge
  rfl

end Delivery

/-! ## The stream -/

namespace ScanStream

variable {node : ChainNode} {config : ScanConfig} {s s' : ScanStream}

/-- The node answers for its chain, which does not change. -/
def HonestAnswers (node : ChainNode) (s : ScanStream) (a : StreamAction) : Prop :=
  match s.download, a with
  | .tipInfo, .tipInfo answer => answer = .ok node.tip
  | .fetching, .fetch startHeader response =>
    (s.currentInProgress.header = none →
      startHeader = .ok (some ⟨s.startHeight, node.headerHash s.startHeight⟩)) ∧
    match firstRequest s.currentInProgress startHeader, response with
    | .ok scan, .ok response => ∀ height ≤ node.tip, scan.header = some (node.headerHash height) →
        node.Answers scan.limit height scan.currentPage response
    | _, _ => False
  | _, _ => True

instance (node : ChainNode) (s : ScanStream) (a : StreamAction) :
    Decidable (HonestAnswers node s a) := by
  unfold HonestAnswers
  split
  · infer_instance
  · refine @instDecidableAnd _ _ inferInstance ?_
    split <;> infer_instance
  · infer_instance

/-- Where the download task is with the pages. -/
def Downloads (node : ChainNode) (config : ScanConfig) (s : ScanStream) : Prop :=
  match s.download with
  | .tipInfo => s.currentInProgress = { config := some config } ∧ s.fetched = []
  | .fetching => ∃ next, Continues node config s.currentInProgress s.fetched next
  | .sendBlocks blocks moreBlocks => (blocks = [] → moreBlocks = false) ∧
      (moreBlocks = false → DownloadEnded node config s.fetched) ∧
      (moreBlocks = true → ∃ next, Continues node config s.currentInProgress s.fetched next)
  | .sendEnd => DownloadEnded node config s.fetched
  | .done => True
  | .sendError _ => False
  | .noTip => False

/-- No empty batch is on its way to the consumer. -/
structure EndUnsent (s : ScanStream) : Prop where
  consumer : s.consumer ≠ .finished
  results : .ok [] ∉ s.results.items
  pages : [] ∉ s.pending
  batch : ∀ page, s.processing ≠ .sendResult page (.ok [])

/-- The pages of the stream, where the end is announced only after the last one. -/
structure Paging (node : ChainNode) (config : ScanConfig) (s : ScanStream) : Prop where
  startHeight : s.startHeight = config.startHeight
  downloads : Downloads node config s
  ended : (DownloadEnded node config s.fetched ∧ s.download.PastFetching) ∨ s.EndUnsent

theorem sendResult_cases {result : Except WalletError (List BlockScanResult)}
    (h : s.sendResult result = some s') :
    (∃ results, s.results.send result = some results ∧ s' = { s with results }) ∨ s' = s := by
  unfold sendResult at h
  split at h
  · obtain ⟨results, hresults, rfl⟩ := Option.map_eq_some_iff.mp h
    exact Or.inl ⟨results, hresults, rfl⟩
  · exact Or.inr (Option.some.inj h).symm

theorem EndUnsent.send {result : Except WalletError (List BlockScanResult)} (h : s.EndUnsent)
    (hresult : result ≠ .ok []) (hsend : s.sendResult result = some s') : s'.EndUnsent := by
  rcases sendResult_cases hsend with ⟨results, hresults, rfl⟩ | rfl
  · refine ⟨h.consumer, ?_, h.pages, h.batch⟩
    rw [Channel.items_send hresults]
    simp only [List.mem_append, List.mem_singleton, not_or]
    exact ⟨h.results, hresult.symm⟩
  · exact h

/-- The download task moves on without a message. -/
theorem EndUnsent.setDownload (h : s.EndUnsent) (download : DownloadTask) (scan : InProgressScan)
    (fetched : List (List BlockUtxoInfo)) :
    { s with currentInProgress := scan, download, fetched }.EndUnsent :=
  ⟨h.consumer, h.results, h.pages, h.batch⟩

theorem Paging.unsent (h : Paging node config s) (hpast : ¬s.download.PastFetching) : s.EndUnsent :=
  h.ended.resolve_left (fun hended => hpast hended.2)

theorem paging_tipInfo {answer : Except WalletError Nat} (h : Paging node config s)
    (hhonest : HonestAnswers node s (.tipInfo answer)) (hrange : ∀ e ∈ config.endHeight,
      config.startHeight ≤ e) (hstep : s.step (.tipInfo answer) = some s') :
    Paging node config s' := by
  have hdownloads := h.downloads
  unfold HonestAnswers at hhonest
  cases hdownload : s.download with
  | tipInfo =>
      simp only [hdownload] at hhonest
      subst hhonest
      simp only [Downloads, hdownload] at hdownloads
      obtain ⟨hscan, hfetched⟩ := hdownloads
      have hunsent := h.unsent (by simp [hdownload, DownloadTask.PastFetching])
      simp only [step, hdownload] at hstep
      have hstart := h.startHeight
      split at hstep
      · next hlt =>
          cases hstep
          have hended : DownloadEnded node config s.fetched :=
            .nothing (hstart ▸ hlt) (by rw [hfetched]; rfl)
          exact ⟨hstart, hended, Or.inr (hunsent.setDownload _ _ _)⟩
      · next hge =>
          cases hstep
          rw [hstart, Nat.not_lt] at hge
          refine ⟨hstart, ⟨config.startHeight, ?_⟩, Or.inr (hunsent.setDownload _ _ _)⟩
          exact {
            upTo := ⟨Nat.le_refl _, by simp [hfetched, ChainNode.places]⟩
            start := hge
            tip := Nat.le_succ_of_le hge
            endHeight := fun e he => Nat.le_succ_of_le (hrange e he)
            active := by rw [hscan]
            request := Or.inl (by rw [hscan]; exact ⟨rfl, rfl, rfl⟩) }
  | _ => simp [step, hdownload] at hstep

theorem paging_fetch {startHeader : Except WalletError (Option BlockHeaderInfo)}
    {response : Except WalletError SyncUtxosByBlockResponse} (h : Paging node config s)
    (hhonest : HonestAnswers node s (.fetch startHeader response))
    (hstep : s.step (.fetch startHeader response) = some s') : Paging node config s' := by
  have hdownloads := h.downloads
  unfold HonestAnswers at hhonest
  cases hdownload : s.download with
  | fetching =>
      simp only [hdownload] at hhonest
      obtain ⟨hheader, hanswer⟩ := hhonest
      simp only [Downloads, hdownload] at hdownloads
      obtain ⟨next, hnext⟩ := hdownloads
      obtain ⟨scan, hfirst, hactive, height, hheight, hsome, hat⟩ :=
        firstRequest_continues hnext (h.startHeight ▸ hheader)
      rw [hfirst] at hanswer
      cases response with
      | error e => exact hanswer.elim
      | ok response =>
          have hread : readPage scan response = ((readPage scan response).1,
            (readPage scan response).2.1, (readPage scan response).2.2) := rfl
          obtain ⟨hempty, hdone, hmore⟩ := readPage_continues hnext.upTo hnext.start hnext.tip
            hnext.endHeight hactive hheight hsome hat (hanswer height hheight hsome) hread
          simp only [step, hdownload, fetchBlockRange, hfirst, bind, Except.bind, pure, Except.pure,
            Option.some.injEq] at hstep
          subst hstep
          have hunsent := h.unsent (by simp [hdownload, DownloadTask.PastFetching])
          exact ⟨h.startHeight, ⟨hempty, hdone, hmore⟩, Or.inr (hunsent.setDownload _ _ _)⟩
  | _ => simp [step, hdownload] at hstep

theorem paging_downloadSend (h : Paging node config s) (hstep : s.step .downloadSend = some s') :
    Paging node config s' := by
  have hdownloads := h.downloads
  cases hdownload : s.download with
  | sendBlocks blocks moreBlocks =>
      simp only [Downloads, hdownload] at hdownloads
      obtain ⟨hempty, hdone, hmore⟩ := hdownloads
      have hpast : s.download.PastFetching → moreBlocks = false := by
        rw [hdownload]
        exact id
      simp only [step, hdownload] at hstep
      split at hstep
      · cases hstep
        exact ⟨h.startHeight, trivial, h.ended.imp (fun hended => ⟨hended.1, trivial⟩)
          (fun hunsent => hunsent.setDownload _ _ _)⟩
      · obtain ⟨scanResult, hscanResult, rfl⟩ := Option.map_eq_some_iff.mp hstep
        refine ⟨h.startHeight, ?_, ?_⟩
        · cases moreBlocks with
          | false => exact hdone rfl
          | true => exact hmore rfl
        · by_cases hnil : blocks = []
          · have hfalse := hempty hnil
            subst hfalse
            exact Or.inl ⟨hdone rfl, trivial⟩
          · refine h.ended.imp (fun hended => ⟨hended.1, ?_⟩) (fun hunsent => ?_)
            · rw [hpast hended.2]
              trivial
            · refine ⟨hunsent.consumer, hunsent.results, ?_, hunsent.batch⟩
              have hpages := hunsent.pages
              simp only [pending, Channel.items_send hscanResult, List.mem_append,
                List.mem_singleton, not_or] at hpages ⊢
              exact ⟨hpages.1, hpages.2, fun heq => hnil heq.symm⟩
  | sendEnd =>
      simp only [Downloads, hdownload] at hdownloads
      simp only [step, hdownload] at hstep
      obtain ⟨t, ht, rfl⟩ := Option.map_eq_some_iff.mp hstep
      rcases sendResult_cases ht with ⟨results, -, rfl⟩ | rfl
      · exact ⟨h.startHeight, trivial, Or.inl ⟨hdownloads, trivial⟩⟩
      · exact ⟨h.startHeight, trivial, Or.inl ⟨hdownloads, trivial⟩⟩
  | sendError e =>
      simp only [Downloads, hdownload] at hdownloads
  | _ => simp [step, hdownload] at hstep

/-- The processing task and the consumer leave the pages alone. -/
theorem Paging.of_download (h : Paging node config s) (hstart : s'.startHeight = s.startHeight)
    (hscan : s'.currentInProgress = s.currentInProgress) (hdownload : s'.download = s.download)
    (hfetched : s'.fetched = s.fetched) (hunsent : s.EndUnsent → s'.EndUnsent) :
    Paging node config s' where
  startHeight := hstart.trans h.startHeight
  downloads := by
    have hdownloads := h.downloads
    unfold Downloads at hdownloads ⊢
    rwa [hdownload, hscan, hfetched]
  ended := by
    rw [hdownload, hfetched]
    exact h.ended.imp_right hunsent

theorem paging_processing {a : StreamAction} (h : Paging node config s)
    (ha : (∃ error, a = .buildPool error) ∨ a = .processingReceive ∨
      ∃ order recognise, a = .process order recognise)
    (hstep : s.step a = some s') : Paging node config s' := by
  rcases ha with ⟨error, rfl⟩ | rfl | ⟨order, recognise, rfl⟩
  · simp only [step] at hstep
    split at hstep
    · next hprocessing =>
        cases hstep
        refine h.of_download rfl rfl rfl rfl (fun hunsent => ?_)
        have hpages := hunsent.pages
        rw [pending, hprocessing] at hpages
        exact ⟨hunsent.consumer, hunsent.results, hpages, by rintro _ ⟨⟩⟩
    · next hprocessing =>
        cases hstep
        refine h.of_download rfl rfl rfl rfl (fun hunsent => ?_)
        have hpages := hunsent.pages
        rw [pending, hprocessing] at hpages
        exact ⟨hunsent.consumer, hunsent.results, hpages, by rintro _ ⟨⟩⟩
    · cases hstep
  · simp only [step] at hstep
    split at hstep
    · next page scanResult hprocessing hrecv =>
        cases hstep
        refine h.of_download rfl rfl rfl rfl (fun hunsent => ?_)
        have hpages := hunsent.pages
        rw [pending, hprocessing, Channel.items_recv hrecv] at hpages
        exact ⟨hunsent.consumer, hunsent.results, hpages, by rintro _ ⟨⟩⟩
    · next hprocessing hrecv =>
        split at hstep
        · cases hstep
          refine h.of_download rfl rfl rfl rfl (fun hunsent => ?_)
          have hpages := hunsent.pages
          rw [pending, hprocessing] at hpages
          exact ⟨hunsent.consumer, hunsent.results, hpages, by rintro _ ⟨⟩⟩
        · cases hstep
    · cases hstep
  · simp only [step] at hstep
    split at hstep
    · next page hprocessing =>
        split at hstep
        · next horder =>
            cases hstep
            refine h.of_download rfl rfl rfl rfl (fun hunsent => ?_)
            have hpages := hunsent.pages
            rw [pending, hprocessing] at hpages
            refine ⟨hunsent.consumer, hunsent.results, hpages, fun page' heq => ?_⟩
            -- a page with blocks makes a batch with blocks
            simp only [ProcessingTask.sendResult.injEq] at heq
            have hscanned := processBatch_ok (List.isPerm_iff.mp horder) heq.2
            rw [hscanned.nil_iff.mp rfl] at hpages
            exact hpages (by simp [ProcessingTask.hand])
        · cases hstep
    · cases hstep

theorem paging_processingSend (h : Paging node config s)
    (hstep : s.step .processingSend = some s') : Paging node config s' := by
  simp only [step] at hstep
  split at hstep
  · next page result hprocessing =>
      obtain ⟨t, ht, rfl⟩ := Option.map_eq_some_iff.mp hstep
      have hfields : t.startHeight = s.startHeight ∧ t.currentInProgress = s.currentInProgress ∧
          t.download = s.download ∧ t.fetched = s.fetched ∧ t.processing = s.processing := by
        rcases sendResult_cases ht with ⟨results, -, rfl⟩ | rfl <;> exact ⟨rfl, rfl, rfl, rfl, rfl⟩
      obtain ⟨hstart, hscan, hdownload, hfetched, hsame⟩ := hfields
      refine h.of_download hstart hscan hdownload hfetched (fun hunsent => ?_)
      have hne : result ≠ .ok [] := fun heq => hunsent.batch page (heq ▸ hprocessing)
      have hsent := hunsent.send hne ht
      have hpages := hsent.pages
      simp only [pending, hsame, hprocessing, ProcessingTask.hand, List.mem_append, not_or]
        at hpages
      refine ⟨hsent.consumer, hsent.results, ?_, ?_⟩
      · cases hok : result.isOk <;> simpa [pending, hok, ProcessingTask.hand] using hpages.2
      · intro page'
        cases result.isOk <;> simp
  · next e hprocessing =>
      obtain ⟨t, ht, rfl⟩ := Option.map_eq_some_iff.mp hstep
      have hfields : t.startHeight = s.startHeight ∧ t.currentInProgress = s.currentInProgress ∧
          t.download = s.download ∧ t.fetched = s.fetched ∧ t.processing = s.processing := by
        rcases sendResult_cases ht with ⟨results, -, rfl⟩ | rfl <;> exact ⟨rfl, rfl, rfl, rfl, rfl⟩
      obtain ⟨hstart, hscan, hdownload, hfetched, hsame⟩ := hfields
      refine h.of_download hstart hscan hdownload hfetched (fun hunsent => ?_)
      have herror : (.error e : Except WalletError (List BlockScanResult)) ≠ .ok [] := by rintro ⟨⟩
      have hsent := hunsent.send herror ht
      have hpages := hsent.pages
      rw [pending, hsame, hprocessing] at hpages
      exact ⟨hsent.consumer, hsent.results, hpages, by rintro _ ⟨⟩⟩
  · cases hstep

theorem paging_receive (h : Paging node config s) (hstep : s.step .receive = some s') :
    Paging node config s' := by
  simp only [step] at hstep
  split at hstep
  · next results hconsumer hrecv =>
      cases hstep
      refine h.of_download rfl rfl rfl rfl (fun hunsent => ?_)
      have hresults := hunsent.results
      rw [Channel.items_recv hrecv] at hresults
      exact absurd List.mem_cons_self hresults
  · next batch results hne hconsumer hrecv =>
      cases hstep
      refine h.of_download rfl rfl rfl rfl (fun hunsent => ?_)
      have hresults := hunsent.results
      rw [Channel.items_recv hrecv] at hresults
      exact ⟨hunsent.consumer, fun hmem => hresults (List.mem_cons_of_mem _ hmem), hunsent.pages,
        hunsent.batch⟩
  · next e results hconsumer hrecv =>
      cases hstep
      refine h.of_download rfl rfl rfl rfl (fun hunsent => ?_)
      have hresults := hunsent.results
      rw [Channel.items_recv hrecv] at hresults
      exact ⟨by rintro ⟨⟩, fun hmem => hresults (List.mem_cons_of_mem _ hmem), hunsent.pages,
        hunsent.batch⟩
  · split at hstep
    · cases hstep
      refine h.of_download rfl rfl rfl rfl (fun hunsent => ?_)
      exact ⟨by rintro ⟨⟩, hunsent.results, hunsent.pages, hunsent.batch⟩
    · cases hstep
  · cases hstep

theorem paging_step {a : StreamAction} (hrange : ∀ e ∈ config.endHeight, config.startHeight ≤ e)
    (h : Paging node config s) (hhonest : HonestAnswers node s a) (hstep : s.step a = some s') :
    Paging node config s' := by
  cases a with
  | tipInfo answer => exact paging_tipInfo h hhonest hrange hstep
  | fetch startHeader response => exact paging_fetch h hhonest hstep
  | downloadSend => exact paging_downloadSend h hstep
  | buildPool error => exact paging_processing h (.inl ⟨error, rfl⟩) hstep
  | processingReceive => exact paging_processing h (.inr (.inl rfl)) hstep
  | process order recognise => exact paging_processing h (.inr (.inr ⟨order, recognise, rfl⟩)) hstep
  | processingSend => exact paging_processingSend h hstep
  | receive => exact paging_receive h hstep
  | leave =>
      simp only [step] at hstep
      split at hstep
      · cases hstep
        exact h.of_download rfl rfl rfl rfl
          (fun hunsent => ⟨by rintro ⟨⟩, hunsent.results, hunsent.pages, hunsent.batch⟩)
      · cases hstep

theorem paging_scanBlocks (h : scanBlocks config = .ok s) :
    Paging node config s ∧ ∀ e ∈ config.endHeight, config.startHeight ≤ e := by
  unfold scanBlocks at h
  split at h
  · cases h
  · next hrange =>
      cases h
      refine ⟨⟨rfl, ⟨rfl, rfl⟩, Or.inr ⟨by rintro ⟨⟩, List.not_mem_nil, List.not_mem_nil, by rintro _ ⟨⟩⟩⟩, ?_⟩
      intro e he
      rw [Option.mem_def.mp he] at hrange
      simpa using hrange

/-- A bounded scan delivers what the gRPC scanner delivers if and only if its end height is no
    lower than the tip: so it is for the pages that are downloaded and, where the end is announced
    in turn, for the batches that the consumer has received with it. -/
theorem boundedScan_exact_iff (node : ChainNode) (config : ScanConfig) (as : List StreamAction)
    (hstart : scanBlocks config = .ok s)
    (hhonest : Transition.Along step (HonestAnswers node) s as)
    (hrun : Transition.run step s as = some s') :
    (s'.download = .sendEnd →
      (ExactlyInBounds node config (s'.fetched.flatten.map (fun b => (b.height, b.headerHash))) ↔
        EndsAtTip config node.tip)) ∧
    (Transition.Along step EndsInTurn s as → s'.consumer = .finished →
      (ExactlyInBounds node config (s'.received.flatten.map (fun b => (b.height, b.blockHash))) ↔
        EndsAtTip config node.tip)) := by
  obtain ⟨hpaging, hrange⟩ : Paging node config s ∧ _ := paging_scanBlocks hstart
  have hpaging' : Paging node config s' :=
    Transition.inv_of_run (fun _ _ _ h hh hstep => paging_step hrange h hh hstep) hpaging hhonest
      hrun
  constructor
  · intro hdownload
    have hended := hpaging'.downloads
    simp only [Downloads, hdownload] at hended
    exact hended.exactlyInBounds_iff hrange
  · intro hturn hfinished
    have htracked : s'.Tracked := Transition.inv_of_run
      (fun _ _ _ h ha hstep => tracked_step h ha hstep) (tracked_scanBlocks hstart) hturn hrun
    have hdelivered := (htracked.inOrder.receivedAll hfinished).delivered
    have hended : DownloadEnded node config s'.fetched := by
      rcases hpaging'.ended with hended | hunsent
      · exact hended.1
      · exact absurd hfinished hunsent.consumer
    rw [← hended.exactlyInBounds_iff hrange]
    obtain ⟨count, hplaces⟩ : ∃ count, s'.fetched.flatten.map (fun b => (b.height, b.headerHash)) =
        node.places config.startHeight count := by
      cases hended with
      | nothing hlt hfetched => exact ⟨0, by rw [hfetched]; rfl⟩
      | atTip hle hupTo => exact ⟨_, hupTo.places⟩
      | pastEnd next endHeight hupTo hnext hend hpast => exact ⟨_, hupTo.places⟩
    rw [hdelivered.places hplaces, hplaces]

/-- A chain up to the tip. -/
def exampleNode (tip : Nat) : ChainNode where
  tip := tip
  headerHash k := 100 + k
  headerHash_inj _ _ _ _ h := Nat.add_left_cancel h

/-- The stream of a scan of block 0 up to block 0. -/
def streamOfBlock0 (batchSize : Nat) : ScanStream :=
  { exampleStream with currentInProgress := { config := some ⟨0, some 0, batchSize⟩ } }

/-- Block 0 is the tip. -/
theorem boundedScan_exact_oneBlock :
    ∃ s', Transition.run step (streamOfBlock0 50) oneBlockInTurn = some s' ∧
      s'.consumer = .finished ∧ ExactlyInBounds (exampleNode 0) ⟨0, some 0, 50⟩
        (s'.received.flatten.map (fun b => (b.height, b.blockHash))) := by
  obtain ⟨s', hrun, hs'⟩ := Transition.exists_run_of_any (f := step) (s := streamOfBlock0 50)
    (l := oneBlockInTurn) (q := fun s' => decide (s'.consumer = .finished)) (by decide +kernel)
  have hfinished := of_decide_eq_true hs'
  have hstart : scanBlocks ⟨0, some 0, 50⟩ = .ok (streamOfBlock0 50) := rfl
  exact ⟨s', hrun, hfinished, ((boundedScan_exact_iff (exampleNode 0) ⟨0, some 0, 50⟩ oneBlockInTurn
    hstart (by decide +kernel) hrun).2 (by decide +kernel) hfinished).mpr (by decide)⟩

/-- Blocks 0 and 1 in pages of one block, with the end announced in turn. -/
def twoPagesInTurn : List StreamAction :=
  [.tipInfo (.ok 1), .buildPool none,
    .fetch (.ok (some ⟨0, 100⟩)) (.ok ⟨[⟨0, 100, [], 0⟩], true, none⟩), .downloadSend,
    .processingReceive, .process [⟨0, 100, [], 0⟩] (fun _ => .ok []), .processingSend,
    .fetch (.ok none) (.ok ⟨[⟨1, 101, [], 0⟩], false, none⟩), .downloadSend, .processingReceive,
    .process [⟨1, 101, [], 0⟩] (fun _ => .ok []), .processingSend, .downloadSend, .receive,
    .receive, .receive]

/-- With block 1 at the tip, it is delivered as well. -/
theorem boundedScan_pastEnd :
    (∃ s', Transition.run step (streamOfBlock0 1) twoPagesInTurn = some s' ∧
      s'.consumer = .finished ∧ s'.received.flatten.map (fun b => b.height) = [0, 1] ∧
      ¬ExactlyInBounds (exampleNode 1) ⟨0, some 0, 1⟩
        (s'.received.flatten.map (fun b => (b.height, b.blockHash)))) ∧
    scanBlocks ⟨0, some 0, 1⟩ = .ok (streamOfBlock0 1) ∧
    Transition.Along step (HonestAnswers (exampleNode 1)) (streamOfBlock0 1) twoPagesInTurn ∧
    Transition.Along step EndsInTurn (streamOfBlock0 1) twoPagesInTurn := by
  refine ⟨?_, rfl, by decide +kernel, by decide +kernel⟩
  obtain ⟨s', hrun, hs'⟩ := Transition.exists_run_of_any (f := step) (s := streamOfBlock0 1)
    (l := twoPagesInTurn) (q := fun s' => decide (s'.consumer = .finished ∧
      s'.received.flatten.map (fun b => b.height) = [0, 1])) (by decide +kernel)
  obtain ⟨hfinished, hreceived⟩ := of_decide_eq_true hs'
  refine ⟨s', hrun, hfinished, hreceived, fun h => ?_⟩
  have hheights := congrArg (List.map Prod.fst) h
  rw [List.map_map] at hheights
  have hlength := congrArg List.length (hreceived.symm.trans hheights)
  exact absurd hlength (by decide)

end ScanStream

end MinotariWallet
