import MinotariWallet.Scan.HttpScanner

set_option autoImplicit false

/-! # The end of the scan stream

The download task announces the end of the scan on the channel that the processing task sends the
blocks on. The announcement comes last only if the processing task has nothing left when it is sent;
and a download task that learns no tip returns without a word. -/

namespace MinotariWallet

/-! ## Pages and batches -/

/-- The batches are those of the pages that have blocks, in their order. -/
def Delivered (fetched : List (List BlockUtxoInfo)) (received : List (List BlockScanResult)) :
    Prop :=
  List.Forall₂ ScannedPage (fetched.filter (· ≠ [])) received

/-- The node's pages go up the chain. -/
def AscendingPages (fetched : List (List BlockUtxoInfo)) : Prop :=
  fetched.Pairwise (fun page later => ∀ b ∈ page, ∀ b' ∈ later, b.height < b'.height)

theorem ScannedPage.heights {page : List BlockUtxoInfo} {batch : List BlockScanResult}
    (h : ScannedPage page batch) {b : BlockScanResult} (hb : b ∈ batch) :
    ∃ block ∈ page, block.height = b.height := by
  have hplace : (b.height, b.blockHash) ∈ page.map (fun b => (b.height, b.headerHash)) :=
    h.blocks.subset (List.mem_map_of_mem hb)
  obtain ⟨block, hblock, heq⟩ := List.mem_map.mp hplace
  exact ⟨block, hblock, congrArg Prod.fst heq⟩

theorem Delivered.ascending {fetched : List (List BlockUtxoInfo)}
    {received : List (List BlockScanResult)} (h : Delivered fetched received)
    (hasc : AscendingPages fetched) :
    received.flatten.Pairwise (fun a b => a.height ≤ b.height) := by
  have hasc' : AscendingPages (fetched.filter (· ≠ [])) := hasc.sublist List.filter_sublist
  unfold Delivered at h
  generalize fetched.filter (· ≠ []) = pages at h hasc'
  induction h with
  | nil => exact .nil
  | @cons page batch pages received hpage hrest ih =>
      obtain ⟨hbelow, hlater⟩ := List.pairwise_cons.mp hasc'
      rw [List.flatten_cons, List.pairwise_append]
      refine ⟨hpage.sorted, ih hlater, fun a ha b hb => ?_⟩
      obtain ⟨later, hlater, hb⟩ := List.mem_flatten.mp hb
      obtain ⟨i, hi, rfl⟩ := List.mem_iff_getElem.mp hlater
      have hi' : i < pages.length := by rw [hrest.length_eq]; exact hi
      obtain ⟨x, hx, hax⟩ := hpage.heights ha
      obtain ⟨y, hy, hby⟩ := (hrest.get hi' hi).heights hb
      have := hbelow _ (List.getElem_mem hi') x hx y hy
      omega

/-! ## What the consumer will find in the channel -/

/-- The consumer stops at the message. -/
def isLast : Except WalletError (List BlockScanResult) → Bool
  | .ok [] => true
  | .ok (_ :: _) => false
  | .error _ => true

/-- The batches among the messages. -/
def batches (results : List (Except WalletError (List BlockScanResult))) :
    List (List BlockScanResult) :=
  results.filterMap (fun
    | .ok (b :: bs) => some (b :: bs)
    | _ => none)

/-- If the consumer, which has received `received`, finds the empty batch before an error among the
    messages, it has received batches with `P` by then. -/
def EndsWith (P : List (List BlockScanResult) → Prop) :
    List (List BlockScanResult) → List (Except WalletError (List BlockScanResult)) → Prop
  | _, [] => True
  | received, .ok [] :: _ => P received
  | received, .ok (b :: bs) :: rest => EndsWith P (received ++ [b :: bs]) rest
  | _, .error _ :: _ => True

section Messages

variable {P Q : List (List BlockScanResult) → Prop} {received : List (List BlockScanResult)}
  {results : List (Except WalletError (List BlockScanResult))}

@[simp] theorem batches_append (results later : List (Except WalletError (List BlockScanResult))) :
    batches (results ++ later) = batches results ++ batches later :=
  List.filterMap_append

@[simp] theorem batches_cons_batch (b : BlockScanResult) (bs : List BlockScanResult) :
    batches (.ok (b :: bs) :: results) = (b :: bs) :: batches results := rfl

@[simp] theorem batches_cons_end : batches (.ok [] :: results) = batches results := rfl

@[simp] theorem batches_cons_error (e : WalletError) :
    batches (.error e :: results) = batches results := rfl

@[simp] theorem batches_nil : batches [] = [] := rfl

theorem EndsWith.mono (h : EndsWith P received results) (hPQ : ∀ received, P received → Q received) :
    EndsWith Q received results := by
  fun_induction EndsWith P received results with
  | case1 => trivial
  | case2 received rest => exact hPQ received h
  | case3 received b bs rest ih => exact ih h
  | case4 => trivial

/-- A message is sent: it matters only when there is nothing yet at which the consumer stops. -/
theorem EndsWith.send {result : Except WalletError (List BlockScanResult)}
    (h : EndsWith P received results)
    (hlast : (∀ r ∈ results, isLast r = false) → result = .ok [] → P (received ++ batches results)) :
    EndsWith P received (results ++ [result]) := by
  fun_induction EndsWith P received results with
  | case1 received =>
      match result with
      | .ok [] => simpa [EndsWith] using hlast (by simp) rfl
      | .ok (b :: bs) => trivial
      | .error e => trivial
  | case2 received rest => exact h
  | case3 received b bs rest ih =>
      refine ih h (fun hrest heq => ?_)
      have hall : ∀ r ∈ (.ok (b :: bs) : Except WalletError (List BlockScanResult)) :: rest,
          isLast r = false := by
        simpa [isLast] using hrest
      simpa using hlast hall heq
  | case4 => trivial

end Messages

/-! ## The property and its condition -/

/-- The pages that a task has in its hands. -/
def DownloadTask.hand : DownloadTask → List (List BlockUtxoInfo)
  | .sendBlocks blocks _ => [blocks]
  | _ => []

def ProcessingTask.hand : ProcessingTask → List (List BlockUtxoInfo)
  | .processing page => [page]
  | .sendResult page _ => [page]
  | _ => []

/-- The download task fetches no more pages. -/
def DownloadTask.PastFetching : DownloadTask → Prop
  | .tipInfo => False
  | .fetching => False
  | .sendBlocks _ moreBlocks => moreBlocks = false
  | _ => True

/-- The processing task has built its thread pool and has not returned after an error. -/
def ProcessingTask.HasPool : ProcessingTask → Prop
  | .buildPool => False
  | .sendPoolError _ => False
  | .failed => False
  | _ => True

namespace ScanStream

/-- The pages that the processing task has not sent a result for. -/
def pending (s : ScanStream) : List (List BlockUtxoInfo) :=
  s.processing.hand ++ s.scanResult.items

/-- The consumer has received all that was fetched, in ascending order. -/
structure ReceivedAll (s : ScanStream) : Prop where
  delivered : Delivered s.fetched s.received
  ascending : AscendingPages s.fetched →
    s.received.flatten.Pairwise (fun a b => a.height ≤ b.height)

/-- No batch is overtaken by the end of the scan, and the stream does not just close. -/
structure InOrder (s : ScanStream) : Prop where
  receivedAll : s.consumer = .finished → s.ReceivedAll
  notClosed : s.consumer ≠ .closed

/-- While the consumer listens: the download task announces the end only when the processing task
    has nothing left or has reported an error, and it is not the case that the request for the tip
    fails and the thread pool is built. -/
def EndsInTurn (s : ScanStream) (a : StreamAction) : Prop :=
  s.consumer = .receiving →
    match a with
    | .tipInfo (.error _) => ¬s.processing.HasPool
    | .buildPool none => s.download ≠ .noTip
    | .downloadSend =>
      s.download = .sendEnd → s.processing ≠ .failed → ∀ page ∈ s.pending, page = []
    | _ => True

/-! ## The invariant -/

/-- Every page fetched is delivered, in the channels or in the hands of a task. -/
def Accounted (s : ScanStream) : Prop :=
  ∃ processed, s.fetched = processed ++ s.pending ++ s.download.hand ∧
    Delivered processed (s.received ++ batches s.results.items)

/-- There is a message at which the consumer stops. -/
def LastSent (s : ScanStream) : Prop := ∃ r ∈ s.results.items, isLast r = true

/-- What holds while the consumer listens. -/
structure Listening (s : ScanStream) : Prop where
  accounted : s.processing ≠ .failed → s.Accounted
  nonempty : ∀ page ∈ s.fetched.dropLast, page ≠ []
  emptyLast : [] ∈ s.fetched → s.download.PastFetching
  endsWith : EndsWith (fun received => Delivered s.fetched received ∧ s.download.PastFetching)
    s.received s.results.items
  scanned : ∀ page batch, s.processing = .sendResult page (.ok batch) → ScannedPage page batch
  failedSent : s.processing = .failed → s.LastSent
  doneSent : s.download = .done → s.LastSent
  noTip : s.download = .noTip → ¬s.processing.HasPool
  processed : s.processing = .done → s.download = .done

/-- The invariant: what holds while the consumer listens, and what it leaves. -/
def Tracked (s : ScanStream) : Prop :=
  match s.consumer with
  | .receiving => s.Listening
  | .finished => Delivered s.fetched s.received ∧ s.download.PastFetching
  | .closed => False
  | _ => True

section Step

variable {s s' : ScanStream}

/-- The download task moves on without a message. -/
theorem Listening.setDownload (h : s.Listening) (download : DownloadTask)
    (hhand : download.hand = s.download.hand)
    (hpast : s.download.PastFetching → download.PastFetching)
    (hdone : download = .done → s.LastSent)
    (hnoTip : download = .noTip → ¬s.processing.HasPool)
    (hprocessed : s.processing ≠ .done) : { s with download }.Listening where
  accounted hfailed := by
    obtain ⟨processed, hfetched, hdelivered⟩ := h.accounted hfailed
    exact ⟨processed, by rw [hfetched, ← hhand]; rfl, hdelivered⟩
  nonempty := h.nonempty
  emptyLast hempty := hpast (h.emptyLast hempty)
  endsWith := h.endsWith.mono (fun _ hP => ⟨hP.1, hpast hP.2⟩)
  scanned := h.scanned
  failedSent := h.failedSent
  doneSent := hdone
  noTip := hnoTip
  processed hprocessing := absurd hprocessing hprocessed

theorem Listening.fetch (h : s.Listening) (hdownload : s.download = .fetching)
    {scan : InProgressScan} {blocks : List BlockUtxoInfo} {moreBlocks : Bool}
    (hempty : blocks = [] → moreBlocks = false) :
    { s with
      currentInProgress := scan
      download := .sendBlocks blocks moreBlocks
      fetched := s.fetched ++ [blocks] }.Listening where
  accounted hfailed := by
    obtain ⟨processed, hfetched, hdelivered⟩ := h.accounted hfailed
    refine ⟨processed, ?_, hdelivered⟩
    simp only [hdownload, DownloadTask.hand, List.append_nil] at hfetched
    simp [hfetched, DownloadTask.hand, pending]
  nonempty page hpage := by
    rw [List.dropLast_concat] at hpage
    rintro rfl
    have := h.emptyLast hpage
    simp [hdownload, DownloadTask.PastFetching] at this
  emptyLast hmem := by
    rcases List.mem_append.mp hmem with hold | hnew
    · have := h.emptyLast hold
      simp [hdownload, DownloadTask.PastFetching] at this
    · exact hempty (List.mem_singleton.mp hnew).symm
  endsWith := h.endsWith.mono (fun _ hP => by
    have := hP.2
    simp [hdownload, DownloadTask.PastFetching] at this)
  scanned := h.scanned
  failedSent := h.failedSent
  doneSent := nofun
  noTip := nofun
  processed hprocessing := by
    have := h.processed hprocessing
    simp [hdownload] at this

/-- A page goes into the channel between the tasks. -/
theorem Listening.handOver (h : s.Listening) {blocks : List BlockUtxoInfo} {moreBlocks : Bool}
    (hdownload : s.download = .sendBlocks blocks moreBlocks)
    {scanResult : Channel (List BlockUtxoInfo) channelCapacity}
    (hsend : s.scanResult.send blocks = some scanResult) :
    { s with scanResult, download := if moreBlocks then .fetching else .sendEnd }.Listening := by
  have hitems := Channel.items_send hsend
  have hnone : (if moreBlocks then DownloadTask.fetching else .sendEnd).hand = [] := by
    cases moreBlocks <;> rfl
  have hpast : s.download.PastFetching →
      (if moreBlocks then DownloadTask.fetching else .sendEnd).PastFetching := by
    rw [hdownload]
    cases moreBlocks <;> simp [DownloadTask.PastFetching]
  exact {
    accounted := fun hfailed => by
      obtain ⟨processed, hfetched, hdelivered⟩ := h.accounted hfailed
      refine ⟨processed, ?_, hdelivered⟩
      simp only [pending, hdownload, DownloadTask.hand] at hfetched
      simp only [pending, hitems, hnone]
      simp [hfetched]
    nonempty := h.nonempty
    emptyLast := fun hempty => hpast (h.emptyLast hempty)
    endsWith := h.endsWith.mono (fun _ hP => ⟨hP.1, hpast hP.2⟩)
    scanned := h.scanned
    failedSent := h.failedSent
    doneSent := fun hdone => by cases moreBlocks <;> cases hdone
    noTip := fun hnoTip => by cases moreBlocks <;> cases hnoTip
    processed := fun hprocessing => by
      have := h.processed hprocessing
      simp [hdownload] at this }

/-- The processing task moves on without a message. -/
theorem Listening.setProcessing (h : s.Listening) (hfailed : s.processing ≠ .failed)
    {processing : ProcessingTask} {scanResult : Channel (List BlockUtxoInfo) channelCapacity}
    (hpending : processing ≠ .failed → processing.hand ++ scanResult.items = s.pending)
    (hscanned : ∀ page batch, processing = .sendResult page (.ok batch) → ScannedPage page batch)
    (hfailedSent : processing = .failed → s.LastSent)
    (hnoTip : processing.HasPool → s.download ≠ .noTip)
    (hprocessed : processing = .done → s.download = .done) :
    { s with processing, scanResult }.Listening where
  accounted hnot := by
    obtain ⟨processed, hfetched, hdelivered⟩ := h.accounted hfailed
    exact ⟨processed, by rw [hfetched, ← hpending hnot]; rfl, hdelivered⟩
  nonempty := h.nonempty
  emptyLast := h.emptyLast
  endsWith := h.endsWith
  scanned := hscanned
  failedSent := hfailedSent
  doneSent := h.doneSent
  noTip hdownload hpool := hnoTip hpool hdownload
  processed := hprocessed

section Messages

variable {results : Channel (Except WalletError (List BlockScanResult)) channelCapacity}

/-- The empty batch or an error is sent. -/
theorem Listening.send (h : s.Listening) {result : Except WalletError (List BlockScanResult)}
    (hsend : s.results.send result = some results) (hlast : isLast result = true)
    (hend : result = .ok [] → ¬s.LastSent →
      Delivered s.fetched (s.received ++ batches s.results.items) ∧ s.download.PastFetching) :
    { s with results }.Listening ∧ { s with results }.LastSent := by
  have hitems := Channel.items_send hsend
  have hnobatch : batches [result] = [] := by
    match result with
    | .ok [] => rfl
    | .ok (_ :: _) => cases hlast
    | .error _ => rfl
  have hsent : { s with results }.LastSent :=
    ⟨result, by rw [hitems]; exact List.mem_append_right _ List.mem_cons_self, hlast⟩
  refine ⟨?_, hsent⟩
  exact {
    accounted := fun hfailed => by
      obtain ⟨processed, hfetched, hdelivered⟩ := h.accounted hfailed
      exact ⟨processed, hfetched, by simpa [hitems, hnobatch] using hdelivered⟩
    nonempty := h.nonempty
    emptyLast := h.emptyLast
    endsWith := by
      rw [hitems]
      refine h.endsWith.send (fun hall heq => hend heq ?_)
      rintro ⟨r, hr, hrlast⟩
      rw [hall r hr] at hrlast
      cases hrlast
    scanned := h.scanned
    failedSent := fun _ => hsent
    doneSent := fun _ => hsent
    noTip := h.noTip
    processed := h.processed }

/-- The processing task sends the batch of the page that it has in its hands. -/
theorem Listening.sendBatch (h : s.Listening) {page : List BlockUtxoInfo}
    {batch : List BlockScanResult} (hprocessing : s.processing = .sendResult page (.ok batch))
    (hsend : s.results.send (.ok batch) = some results) :
    { s with results, processing := .receiving }.Listening := by
  have hitems := Channel.items_send hsend
  have hscanned := h.scanned page batch hprocessing
  obtain ⟨processed, hfetched, hdelivered⟩ := h.accounted (by simp [hprocessing])
  simp only [pending, hprocessing, ProcessingTask.hand] at hfetched
  have hprocessed : Delivered (processed ++ [page])
      (s.received ++ batches (s.results.items ++ [.ok batch])) := by
    cases batch with
    | nil =>
        have hpage := hscanned.nil_iff.mp rfl
        simpa [Delivered, hpage] using hdelivered
    | cons b bs =>
        have hpage : page ≠ [] := fun hpage => by
          have := hscanned.nil_iff.mpr hpage
          cases this
        unfold Delivered at hdelivered ⊢
        rw [List.filter_append, batches_append, ← List.append_assoc]
        simpa [hpage] using List.rel_append hdelivered (.cons hscanned .nil)
  -- an empty batch comes of an empty page, which is the last that was fetched
  have hend : batch = [] → Delivered s.fetched (s.received ++ batches s.results.items) ∧
      s.download.PastFetching := by
    rintro rfl
    obtain rfl := hscanned.nil_iff.mp rfl
    refine ⟨?_, h.emptyLast (by simp [hfetched])⟩
    have hrest : s.scanResult.items ++ s.download.hand = [] := by
      by_contra hne
      refine h.nonempty [] ?_ rfl
      rw [hfetched, List.append_assoc, List.append_assoc, List.dropLast_append_of_ne_nil (by simp),
        List.singleton_append, List.dropLast_cons_of_ne_nil hne]
      simp
    rw [hfetched, List.append_assoc, List.append_assoc, hrest]
    simpa using hprocessed
  exact {
    accounted := fun _ => ⟨processed ++ [page],
      by simp [hfetched, pending, ProcessingTask.hand], by rw [hitems]; exact hprocessed⟩
    nonempty := h.nonempty
    emptyLast := h.emptyLast
    endsWith := by
      rw [hitems]
      exact h.endsWith.send (fun _ heq => hend (Except.ok.inj heq))
    scanned := nofun
    failedSent := nofun
    doneSent := fun hdone => by
      obtain ⟨r, hr, hrlast⟩ := h.doneSent hdone
      exact ⟨r, by rw [hitems]; exact List.mem_append_left _ hr, hrlast⟩
    noTip := fun hdownload => by
      have := h.noTip hdownload
      simp [hprocessing, ProcessingTask.HasPool] at this
    processed := nofun }

end Messages

/-- The consumer receives a batch. -/
theorem Listening.receive (h : s.Listening) {b : BlockScanResult} {bs : List BlockScanResult}
    {results : Channel (Except WalletError (List BlockScanResult)) channelCapacity}
    (hrecv : s.results.recv = some (.ok (b :: bs), results)) :
    { s with results, received := s.received ++ [b :: bs] }.Listening := by
  have hitems := Channel.items_recv hrecv
  have hsent : s.LastSent →
      { s with results, received := s.received ++ [b :: bs] }.LastSent := by
    rintro ⟨r, hr, hlast⟩
    rw [hitems] at hr
    rcases List.mem_cons.mp hr with rfl | hr
    · cases hlast
    · exact ⟨r, hr, hlast⟩
  have hends := h.endsWith
  rw [hitems] at hends
  exact {
    accounted := fun hfailed => by
      obtain ⟨processed, hfetched, hdelivered⟩ := h.accounted hfailed
      exact ⟨processed, hfetched, by simpa [hitems] using hdelivered⟩
    nonempty := h.nonempty
    emptyLast := h.emptyLast
    endsWith := hends
    scanned := h.scanned
    failedSent := fun hfailed => hsent (h.failedSent hfailed)
    doneSent := fun hdone => hsent (h.doneSent hdone)
    noTip := h.noTip
    processed := h.processed }

/-- The channel is not closed on a listening consumer. -/
theorem Listening.not_closed (h : s.Listening) (hrecv : s.results.recv = none)
    (hdownload : s.download.returned = true) (hprocessing : s.processing.returned = true) :
    False := by
  have hnothing : ¬s.LastSent := by
    rintro ⟨r, hr, -⟩
    rw [Channel.items_of_recv_none hrecv] at hr
    cases hr
  have hnoTip : s.download = .noTip := by
    cases hd : s.download with
    | noTip => rfl
    | done => exact absurd (h.doneSent hd) hnothing
    | _ => simp [hd, DownloadTask.returned] at hdownload
  cases hp : s.processing with
  | failed => exact hnothing (h.failedSent hp)
  | done =>
      have := h.noTip hnoTip
      simp [hp, ProcessingTask.HasPool] at this
  | _ => simp [hp, ProcessingTask.returned] at hprocessing

theorem Listening.tracked (h : s.Listening) (hconsumer : s.consumer = .receiving) : s.Tracked := by
  simp only [Tracked, hconsumer]
  exact h

theorem Tracked.listening (h : s.Tracked) (hconsumer : s.consumer = .receiving) :
    s.Listening := by
  simpa only [Tracked, hconsumer] using h

/-- A send while the consumer listens. -/
theorem sendResult_listening {result : Except WalletError (List BlockScanResult)}
    (hconsumer : s.consumer = .receiving) (h : s.sendResult result = some s') :
    ∃ results, s.results.send result = some results ∧ s' = { s with results } := by
  rw [sendResult, if_pos hconsumer] at h
  obtain ⟨results, hresults, rfl⟩ := Option.map_eq_some_iff.mp h
  exact ⟨results, hresults, rfl⟩

/-- The download task asks for the tip or fetches a page. -/
theorem tracked_node (h : s.Listening) (hconsumer : s.consumer = .receiving)
    {a : StreamAction} (ha : s.EndsInTurn a) (hstep : s.step a = some s')
    (hkind : (∃ answer, a = .tipInfo answer) ∨ ∃ header response, a = .fetch header response) :
    s'.Tracked := by
  rcases hkind with ⟨answer, rfl⟩ | ⟨header, response, rfl⟩
  · simp only [step] at hstep
    split at hstep
    · next hdownload =>
        cases hstep
        refine Listening.tracked (h.setDownload .noTip ?_ ?_ nofun (fun _ => ha hconsumer) ?_)
          hconsumer
        · simp [hdownload, DownloadTask.hand]
        · intro _; trivial
        · intro hprocessing
          have := h.processed hprocessing
          simp [hdownload] at this
    · next best hdownload =>
        have hnotPast : ¬s.download.PastFetching := by simp [hdownload, DownloadTask.PastFetching]
        have hnotDone : s.processing ≠ .done := fun hprocessing => by
          have := h.processed hprocessing
          simp [hdownload] at this
        split at hstep
        · cases hstep
          exact Listening.tracked (h.setDownload .sendEnd (by simp [hdownload, DownloadTask.hand])
            (fun hpast => absurd hpast hnotPast) nofun nofun hnotDone) hconsumer
        · cases hstep
          exact Listening.tracked (h.setDownload .fetching (by simp [hdownload, DownloadTask.hand])
            (fun hpast => absurd hpast hnotPast) nofun nofun hnotDone) hconsumer
    · cases hstep
  · simp only [step] at hstep
    split at hstep
    · next blocks moreBlocks scan hdownload hfetch =>
        cases hstep
        refine Listening.tracked (h.fetch hdownload (fun hempty => ?_)) hconsumer
        subst hempty
        exact fetchBlockRange_empty hfetch
    · next e hdownload _ =>
        cases hstep
        refine Listening.tracked (h.setDownload (.sendError e) ?_ (fun _ => trivial) nofun nofun ?_)
          hconsumer
        · simp [hdownload, DownloadTask.hand]
        · intro hprocessing
          have := h.processed hprocessing
          simp [hdownload] at this
    · cases hstep

theorem tracked_downloadSend (h : s.Listening) (hconsumer : s.consumer = .receiving)
    (ha : s.EndsInTurn .downloadSend) (hstep : s.step .downloadSend = some s') : s'.Tracked := by
  simp only [step] at hstep
  -- the download task returns once its last message is sent
  have hreturn : ∀ {results}, { s with results }.Listening ∧ { s with results }.LastSent →
      s.download.hand = [] → (s.processing = .done → s.download = .done) → s.download ≠ .done →
      { s with results, download := .done }.Tracked := by
    rintro results ⟨hlistening, hsent⟩ hhand hprocessed hnotDone
    exact Listening.tracked (hlistening.setDownload .done (by rw [hhand]; rfl) (fun _ => trivial)
      (fun _ => hsent) nofun (fun hprocessing => hnotDone (hprocessed hprocessing))) hconsumer
  split at hstep
  · next blocks moreBlocks hdownload =>
      split at hstep
      · next hreturned =>
          cases hstep
          have hfailed : s.processing = .failed := by
            cases hp : s.processing with
            | failed => rfl
            | done =>
                have := h.processed hp
                simp [hdownload] at this
            | _ => simp [hp, ProcessingTask.returned] at hreturned
          refine Listening.tracked ?_ hconsumer
          exact {
            accounted := fun hnot => absurd hfailed hnot
            nonempty := h.nonempty
            emptyLast := fun _ => trivial
            endsWith := h.endsWith.mono (fun _ hP => ⟨hP.1, trivial⟩)
            scanned := h.scanned
            failedSent := h.failedSent
            doneSent := fun _ => h.failedSent hfailed
            noTip := nofun
            processed := fun _ => rfl }
      · obtain ⟨scanResult, hsend, rfl⟩ := Option.map_eq_some_iff.mp hstep
        exact Listening.tracked (h.handOver hdownload hsend) hconsumer
  · next hdownload =>
      obtain ⟨t, ht, rfl⟩ := Option.map_eq_some_iff.mp hstep
      obtain ⟨results, hsend, rfl⟩ := sendResult_listening hconsumer ht
      refine hreturn (h.send hsend rfl (fun _ hnothing => ?_)) (by rw [hdownload]; rfl) h.processed
        (by simp [hdownload])
      have hnotFailed : s.processing ≠ .failed := fun hfailed => hnothing (h.failedSent hfailed)
      have hempty := ha hconsumer hdownload hnotFailed
      obtain ⟨processed, hfetched, hdelivered⟩ := h.accounted hnotFailed
      have hpending : s.pending.filter (· ≠ []) = [] := by
        rw [List.filter_eq_nil_iff]
        intro page hpage
        simp [hempty page hpage]
      refine ⟨?_, by simp [hdownload, DownloadTask.PastFetching]⟩
      rw [hfetched]
      simp only [hdownload, DownloadTask.hand, List.append_nil]
      unfold Delivered
      rw [List.filter_append, hpending, List.append_nil]
      exact hdelivered
  · next e hdownload =>
      obtain ⟨t, ht, rfl⟩ := Option.map_eq_some_iff.mp hstep
      obtain ⟨results, hsend, rfl⟩ := sendResult_listening hconsumer ht
      exact hreturn (h.send hsend rfl nofun) (by rw [hdownload]; rfl) h.processed
        (by simp [hdownload])
  · cases hstep

theorem tracked_processing (h : s.Listening) (hconsumer : s.consumer = .receiving)
    {a : StreamAction} (ha : s.EndsInTurn a) (hstep : s.step a = some s')
    (hkind : (∃ error, a = .buildPool error) ∨ a = .processingReceive ∨
      ∃ order recognise, a = .process order recognise) : s'.Tracked := by
  rcases hkind with ⟨error, rfl⟩ | rfl | ⟨order, recognise, rfl⟩
  · simp only [step] at hstep
    split at hstep
    · next hprocessing =>
        cases hstep
        exact Listening.tracked (h.setProcessing (by simp [hprocessing])
          (fun _ => by simp [pending, hprocessing, ProcessingTask.hand]) nofun nofun
          (fun _ => ha hconsumer) nofun) hconsumer
    · next e hprocessing =>
        cases hstep
        exact Listening.tracked (h.setProcessing (by simp [hprocessing])
          (fun _ => by simp [pending, hprocessing, ProcessingTask.hand]) nofun nofun
          (fun hpool => hpool.elim) nofun) hconsumer
    · cases hstep
  · simp only [step] at hstep
    split at hstep
    · next page scanResult hprocessing hrecv =>
        cases hstep
        have hitems := Channel.items_recv hrecv
        refine Listening.tracked (h.setProcessing (by simp [hprocessing])
          (fun _ => by simp [pending, hprocessing, ProcessingTask.hand, hitems]) nofun nofun
          (fun _ hnoTip => ?_) nofun) hconsumer
        exact h.noTip hnoTip (by simp [hprocessing, ProcessingTask.HasPool])
    · next hprocessing hrecv =>
        split at hstep
        · next hreturned =>
            cases hstep
            have hpool : s.download ≠ .noTip := fun hnoTip =>
              h.noTip hnoTip (by simp [hprocessing, ProcessingTask.HasPool])
            have hdone : s.download = .done := by
              cases hd : s.download with
              | done => rfl
              | noTip => exact absurd hd hpool
              | _ => simp [hd, DownloadTask.returned] at hreturned
            exact Listening.tracked (h.setProcessing (by simp [hprocessing])
              (fun _ => by simp [pending, hprocessing, ProcessingTask.hand]) nofun nofun
              (fun _ => hpool) (fun _ => hdone)) hconsumer
        · cases hstep
    · cases hstep
  · simp only [step] at hstep
    split at hstep
    · next page hprocessing =>
        split at hstep
        · next hperm =>
            cases hstep
            refine Listening.tracked (h.setProcessing (by simp [hprocessing])
              (fun _ => by simp [pending, hprocessing, ProcessingTask.hand]) ?_ nofun
              (fun _ hnoTip => ?_) nofun) hconsumer
            · rintro _ batch heq
              simp only [ProcessingTask.sendResult.injEq] at heq
              obtain ⟨rfl, hbatch⟩ := heq
              exact processBatch_ok (List.isPerm_iff.mp hperm) hbatch
            · exact h.noTip hnoTip (by simp [hprocessing, ProcessingTask.HasPool])
        · cases hstep
    · cases hstep

theorem tracked_processingSend (h : s.Listening) (hconsumer : s.consumer = .receiving)
    (hstep : s.step .processingSend = some s') : s'.Tracked := by
  simp only [step] at hstep
  -- an error is the last message of the task
  have hreturn : ∀ {results}, { s with results }.Listening ∧ { s with results }.LastSent →
      s.processing ≠ .failed → { s with results, processing := .failed }.Tracked := by
    rintro results ⟨hlistening, hsent⟩ hnotFailed
    exact Listening.tracked (hlistening.setProcessing hnotFailed
      (fun hnot => absurd rfl hnot) nofun (fun _ => hsent) (fun hpool => hpool.elim) nofun) hconsumer
  split at hstep
  · next page result hprocessing =>
      obtain ⟨t, ht, rfl⟩ := Option.map_eq_some_iff.mp hstep
      obtain ⟨results, hsend, rfl⟩ := sendResult_listening hconsumer ht
      cases result with
      | ok batch => exact Listening.tracked (h.sendBatch hprocessing hsend) hconsumer
      | error e => exact hreturn (h.send hsend rfl nofun) (by simp [hprocessing])
  · next e hprocessing =>
      obtain ⟨t, ht, rfl⟩ := Option.map_eq_some_iff.mp hstep
      obtain ⟨results, hsend, rfl⟩ := sendResult_listening hconsumer ht
      exact hreturn (h.send hsend rfl nofun) (by simp [hprocessing])
  · cases hstep

theorem tracked_receive (h : s.Listening) (hconsumer : s.consumer = .receiving)
    (hstep : s.step .receive = some s') : s'.Tracked := by
  simp only [step] at hstep
  split at hstep
  · next results _ hrecv =>
      cases hstep
      have hends := h.endsWith
      rw [Channel.items_recv hrecv] at hends
      exact hends
  · next batch results hempty _ hrecv =>
      cases hstep
      cases batch with
      | nil => exact absurd rfl hempty
      | cons b bs => exact Listening.tracked (h.receive hrecv) hconsumer
  · next e results _ hrecv =>
      cases hstep
      trivial
  · next hrecv =>
      split at hstep
      · next hreturned =>
          rw [Bool.and_eq_true] at hreturned
          exact (h.not_closed hrecv hreturned.1 hreturned.2).elim
      · cases hstep
  · cases hstep

/-- Once the consumer is gone, it receives nothing more. -/
theorem step_gone (hconsumer : s.consumer ≠ .receiving) {a : StreamAction}
    (hstep : s.step a = some s') :
    s'.consumer = s.consumer ∧ s'.received = s.received ∧
      (s.download.PastFetching → s'.fetched = s.fetched ∧ s'.download.PastFetching) := by
  have hsend : ∀ {result t}, s.sendResult result = some t → t = s := by
    intro result t ht
    rw [sendResult, if_neg hconsumer] at ht
    exact (Option.some.inj ht).symm
  cases a with
  | tipInfo answer =>
      simp only [step] at hstep
      split at hstep
      · cases hstep
        exact ⟨rfl, rfl, fun _ => ⟨rfl, trivial⟩⟩
      · next best hdownload =>
          have hnot : ¬s.download.PastFetching := by simp [hdownload, DownloadTask.PastFetching]
          split at hstep
          · cases hstep
            exact ⟨rfl, rfl, fun hpast => absurd hpast hnot⟩
          · cases hstep
            exact ⟨rfl, rfl, fun hpast => absurd hpast hnot⟩
      · cases hstep
  | fetch header response =>
      simp only [step] at hstep
      split at hstep
      · next hdownload _ =>
          cases hstep
          exact ⟨rfl, rfl, fun hpast => by simp [hdownload, DownloadTask.PastFetching] at hpast⟩
      · cases hstep
        exact ⟨rfl, rfl, fun _ => ⟨rfl, trivial⟩⟩
      · cases hstep
  | downloadSend =>
      simp only [step] at hstep
      split at hstep
      · next blocks moreBlocks hdownload =>
          split at hstep
          · cases hstep
            exact ⟨rfl, rfl, fun _ => ⟨rfl, trivial⟩⟩
          · obtain ⟨scanResult, -, rfl⟩ := Option.map_eq_some_iff.mp hstep
            refine ⟨rfl, rfl, fun hpast => ⟨rfl, ?_⟩⟩
            simp only [hdownload, DownloadTask.PastFetching] at hpast
            simp [hpast, DownloadTask.PastFetching]
      · obtain ⟨t, ht, rfl⟩ := Option.map_eq_some_iff.mp hstep
        rw [hsend ht]
        exact ⟨rfl, rfl, fun _ => ⟨rfl, trivial⟩⟩
      · obtain ⟨t, ht, rfl⟩ := Option.map_eq_some_iff.mp hstep
        rw [hsend ht]
        exact ⟨rfl, rfl, fun _ => ⟨rfl, trivial⟩⟩
      · cases hstep
  | buildPool error =>
      simp only [step] at hstep
      split at hstep <;> cases hstep <;> exact ⟨rfl, rfl, fun hpast => ⟨rfl, hpast⟩⟩
  | processingReceive =>
      simp only [step] at hstep
      split at hstep
      · cases hstep
        exact ⟨rfl, rfl, fun hpast => ⟨rfl, hpast⟩⟩
      · split at hstep <;> cases hstep
        exact ⟨rfl, rfl, fun hpast => ⟨rfl, hpast⟩⟩
      · cases hstep
  | process order recognise =>
      simp only [step] at hstep
      split at hstep
      · split at hstep <;> cases hstep
        exact ⟨rfl, rfl, fun hpast => ⟨rfl, hpast⟩⟩
      · cases hstep
  | processingSend =>
      simp only [step] at hstep
      split at hstep
      · obtain ⟨t, ht, rfl⟩ := Option.map_eq_some_iff.mp hstep
        rw [hsend ht]
        exact ⟨rfl, rfl, fun hpast => ⟨rfl, hpast⟩⟩
      · obtain ⟨t, ht, rfl⟩ := Option.map_eq_some_iff.mp hstep
        rw [hsend ht]
        exact ⟨rfl, rfl, fun hpast => ⟨rfl, hpast⟩⟩
      · cases hstep
  | receive =>
      simp only [step] at hstep
      split at hstep
      all_goals first | cases hstep | skip
      all_goals exact absurd ‹s.consumer = .receiving› hconsumer
  | leave => simp [step, hconsumer] at hstep

/-- One step. -/
theorem tracked_step (h : s.Tracked) {a : StreamAction} (ha : s.EndsInTurn a)
    (hstep : s.step a = some s') : s'.Tracked := by
  by_cases hconsumer : s.consumer = .receiving
  · have hlistening := h.listening hconsumer
    cases a with
    | tipInfo answer => exact tracked_node hlistening hconsumer ha hstep (.inl ⟨answer, rfl⟩)
    | fetch header response =>
        exact tracked_node hlistening hconsumer ha hstep (.inr ⟨header, response, rfl⟩)
    | downloadSend => exact tracked_downloadSend hlistening hconsumer ha hstep
    | buildPool error => exact tracked_processing hlistening hconsumer ha hstep (.inl ⟨error, rfl⟩)
    | processingReceive => exact tracked_processing hlistening hconsumer ha hstep (.inr (.inl rfl))
    | process order recognise =>
        exact tracked_processing hlistening hconsumer ha hstep (.inr (.inr ⟨order, recognise, rfl⟩))
    | processingSend => exact tracked_processingSend hlistening hconsumer hstep
    | receive => exact tracked_receive hlistening hconsumer hstep
    | leave =>
        simp only [step, hconsumer, if_true, Option.some.injEq] at hstep
        subst hstep
        trivial
  · obtain ⟨hsame, hreceived, hpast⟩ := step_gone hconsumer hstep
    unfold Tracked at h ⊢
    rw [hsame]
    cases hc : s.consumer with
    | receiving => exact absurd hc hconsumer
    | finished =>
        simp only [hc] at h ⊢
        obtain ⟨hfetched, hpast'⟩ := hpast h.2
        rw [hfetched, hreceived]
        exact ⟨h.1, hpast'⟩
    | closed => simp only [hc] at h
    | _ => trivial

theorem Tracked.inOrder (h : s.Tracked) : s.InOrder := by
  refine ⟨fun hfinished => ?_, fun hclosed => ?_⟩
  · simp only [Tracked, hfinished] at h
    exact ⟨h.1, h.1.ascending⟩
  · simp only [Tracked, hclosed] at h

theorem tracked_scanBlocks {config : ScanConfig} (h : scanBlocks config = .ok s) : s.Tracked := by
  unfold scanBlocks at h
  split at h
  · cases h
  · cases h
    exact {
      accounted := fun _ => ⟨[], rfl, .nil⟩
      nonempty := nofun
      emptyLast := nofun
      endsWith := trivial
      scanned := nofun
      failedSent := nofun
      doneSent := nofun
      noTip := nofun
      processed := nofun }

/-- In every run of the two tasks and the consumer in which the end is announced in turn, the
    consumer that receives it has received all blocks, and the stream does not just close. -/
theorem inOrder_of_run {config : ScanConfig} {as : List StreamAction}
    (hstart : scanBlocks config = .ok s) (hturn : Transition.Along step EndsInTurn s as) :
    Transition.Always step InOrder s as :=
  Transition.always_of_along (fun _ _ _ h ha hstep => tracked_step h ha hstep)
    (fun _ h => h.inOrder) (tracked_scanBlocks hstart) hturn

end Step

instance : DecidablePred ProcessingTask.HasPool := fun processing =>
  match processing with
  | .buildPool => isFalse id
  | .sendPoolError _ => isFalse id
  | .failed => isFalse id
  | .receiving => isTrue trivial
  | .processing _ => isTrue trivial
  | .sendResult _ _ => isTrue trivial
  | .done => isTrue trivial

instance (s : ScanStream) (a : StreamAction) : Decidable (s.EndsInTurn a) := by
  unfold EndsInTurn
  split <;> infer_instance

/-- A stream from block 0 on. -/
def exampleStream : ScanStream where
  startHeight := 0
  currentInProgress := { config := some ⟨0, none, 50⟩ }
  download := .tipInfo
  processing := .buildPool
  consumer := .receiving
  scanResult := .empty _ _
  results := .empty _ _
  fetched := []
  received := []

/-- The node has one block, which is fetched and handed over. -/
def downloadOneBlock : List StreamAction :=
  [.tipInfo (.ok 0), .fetch (.ok (some ⟨0, 100⟩)) (.ok ⟨[⟨0, 100, [], 0⟩], false, none⟩),
    .downloadSend]

/-- The processing task is done with the block before the end is announced. -/
def oneBlockInTurn : List StreamAction :=
  downloadOneBlock ++ ([.buildPool none, .processingReceive,
    .process [⟨0, 100, [], 0⟩] (fun _ => .ok []), .processingSend, .downloadSend, .receive,
    .receive] : List StreamAction)

theorem inOrder_oneBlockInTurn : Transition.Along step EndsInTurn exampleStream oneBlockInTurn ∧
    Transition.Always step InOrder exampleStream oneBlockInTurn := by
  have hturn : Transition.Along step EndsInTurn exampleStream oneBlockInTurn := by decide +kernel
  have hstart : scanBlocks ⟨0, none, 50⟩ = .ok exampleStream := rfl
  exact ⟨hturn, inOrder_of_run hstart hturn⟩

/-- The end of the scan overtakes the block; and where the request for the tip fails, the stream
    closes without a message. -/
theorem endOfScan_outOfTurn :
    (∃ s, Transition.run step exampleStream (downloadOneBlock ++ [.downloadSend, .receive]) =
        some s ∧ ¬s.InOrder) ∧
      ∃ s, Transition.run step exampleStream
        [.tipInfo (.error (.timeout "Failed after 3")), .buildPool none, .processingReceive,
          .receive] = some s ∧ ¬s.InOrder := by
  constructor
  · obtain ⟨s, hrun, hs⟩ := Transition.exists_run_of_any (f := step) (s := exampleStream)
      (l := downloadOneBlock ++ [.downloadSend, .receive])
      (q := fun s => decide (s.consumer = .finished ∧ s.fetched.filter (· ≠ []) ≠ [] ∧
        s.received = [])) (by decide +kernel)
    simp only [decide_eq_true_eq] at hs
    obtain ⟨hfinished, hfetched, hreceived⟩ := hs
    refine ⟨s, hrun, fun h => hfetched ?_⟩
    have hdelivered := (h.receivedAll hfinished).delivered
    rw [hreceived] at hdelivered
    exact List.forall₂_nil_right_iff.mp hdelivered
  · obtain ⟨s, hrun, hs⟩ := Transition.exists_run_of_any (f := step) (s := exampleStream)
      (l := [.tipInfo (.error (.timeout "Failed after 3")), .buildPool none, .processingReceive,
        .receive])
      (q := fun s => decide (s.consumer = .closed)) (by decide +kernel)
    simp only [decide_eq_true_eq] at hs
    exact ⟨s, hrun, fun h => h.notClosed hs⟩

end ScanStream

end MinotariWallet
