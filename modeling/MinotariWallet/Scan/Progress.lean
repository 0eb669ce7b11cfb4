import MinotariWallet.Scan.EndOfStream

set_option autoImplicit false

/-! # The scan stream goes on, and ends

The download task waits for room in the channel to the processing task, which waits for room in the
channel to the consumer. They do not wait for one another in a circle: until all three are done, one
of them can go on, whatever the node answers. And they cannot go on for ever: each page that is
fetched is good for a few steps. -/

namespace MinotariWallet

open ScanStream

namespace ScanStream

/-- The two tasks have returned, and the consumer has stopped. -/
def Ended (s : ScanStream) : Prop :=
  s.download.returned = true ∧ s.processing.returned = true ∧ s.consumer ≠ .receiving

end ScanStream

/-- What the node, the machine and the thread pool answer when they are asked next. -/
structure StreamAnswers where
  bestBlockHeight : Except WalletError Nat
  startHeader : Except WalletError (Option BlockHeaderInfo)
  response : Except WalletError SyncUtxosByBlockResponse
  poolError : Option WalletError
  order : List BlockUtxoInfo → List BlockUtxoInfo
  order_perm : ∀ page, (order page).isPerm page = true
  recognise : BlockUtxoInfo → Except WalletError (List (FixedHash × WalletOutput × Nat))

/-- The pages that the processing task works on. -/
def ProcessingTask.page : ProcessingTask → List BlockUtxoInfo
  | .processing page => page
  | _ => []

/-- What the tasks and the consumer do with these answers; the consumer does not leave. -/
def StreamAnswers.actions (x : StreamAnswers) (s : ScanStream) : List StreamAction :=
  [.tipInfo x.bestBlockHeight, .fetch x.startHeader x.response, .downloadSend,
    .buildPool x.poolError, .processingReceive, .process (x.order s.processing.page) x.recognise,
    .processingSend, .receive]

/-! ## No deadlock -/

section Progress

variable {s : ScanStream}

/-- A full results channel can be received from, and what its consumer has left takes everything. -/
theorem receive_of_sendResult_none {result : Except WalletError (List BlockScanResult)}
    (h : s.sendResult result = none) : (step s .receive).isSome = true := by
  unfold sendResult at h
  split at h
  · next hconsumer =>
      have hfull : s.results.send result = none := by simpa using h
      obtain ⟨y, results, hrecv⟩ := Channel.recv_of_send_none (by decide) hfull
      simp only [step, hconsumer, hrecv]
      cases y with
      | error e => rfl
      | ok batch => cases batch <;> rfl
  · cases h

/-- The processing task can go on, or the consumer, unless the task has returned or waits for the
    download task. -/
theorem processing_progress (x : StreamAnswers) (hreturned : s.processing.returned = false)
    (hwaits : s.processing = .receiving → s.scanResult.recv ≠ none ∨ s.download.returned = true) :
    ∃ a ∈ x.actions s, (step s a).isSome = true := by
  cases hprocessing : s.processing with
  | buildPool =>
      refine ⟨.buildPool x.poolError, by simp [StreamAnswers.actions], ?_⟩
      cases hpool : x.poolError <;> simp [step, hprocessing]
  | receiving =>
      refine ⟨.processingReceive, by simp [StreamAnswers.actions], ?_⟩
      cases hrecv : s.scanResult.recv with
      | some p => simp [step, hprocessing, hrecv]
      | none =>
          have hdone := (hwaits hprocessing).resolve_left (absurd hrecv)
          simp [step, hprocessing, hrecv, hdone]
  | processing page =>
      refine ⟨.process (x.order page) x.recognise, by simp [StreamAnswers.actions, hprocessing,
        ProcessingTask.page], ?_⟩
      simp [step, hprocessing, x.order_perm page]
  | sendResult page result =>
      cases hsend : s.sendResult result with
      | some s' =>
          exact ⟨.processingSend, by simp [StreamAnswers.actions], by simp [step, hprocessing, hsend]⟩
      | none =>
          exact ⟨.receive, by simp [StreamAnswers.actions], receive_of_sendResult_none hsend⟩
  | sendPoolError e =>
      cases hsend : s.sendResult (.error e) with
      | some s' =>
          exact ⟨.processingSend, by simp [StreamAnswers.actions], by simp [step, hprocessing, hsend]⟩
      | none =>
          exact ⟨.receive, by simp [StreamAnswers.actions], receive_of_sendResult_none hsend⟩
  | failed => simp [hprocessing, ProcessingTask.returned] at hreturned
  | done => simp [hprocessing, ProcessingTask.returned] at hreturned

/-- The end of the scan or an error can be sent, or the consumer makes room for it. -/
theorem downloadSend_progress (x : StreamAnswers)
    (result : Except WalletError (List BlockScanResult))
    (hstep : ∀ s', s.sendResult result = some s' → (step s .downloadSend).isSome = true) :
    ∃ a ∈ x.actions s, (step s a).isSome = true := by
  cases hsend : s.sendResult result with
  | some s' => exact ⟨.downloadSend, by simp [StreamAnswers.actions], hstep s' hsend⟩
  | none => exact ⟨.receive, by simp [StreamAnswers.actions], receive_of_sendResult_none hsend⟩

/-- Unless all three are done, one of them can go on. -/
theorem ended_or_progress (s : ScanStream) (x : StreamAnswers) :
    s.Ended ∨ ∃ a ∈ x.actions s, (step s a).isSome = true := by
  cases hdownload : s.download with
  | tipInfo =>
      refine Or.inr ⟨.tipInfo x.bestBlockHeight, by simp [StreamAnswers.actions], ?_⟩
      cases htip : x.bestBlockHeight with
      | error e => simp [step, hdownload]
      | ok height =>
          simp only [step, hdownload]
          split <;> rfl
  | fetching =>
      refine Or.inr ⟨.fetch x.startHeader x.response, by simp [StreamAnswers.actions], ?_⟩
      simp only [step, hdownload]
      cases fetchBlockRange s.currentInProgress x.startHeader x.response <;> rfl
  | sendBlocks blocks moreBlocks =>
      by_cases hreturned : s.processing.returned = true
      · exact Or.inr ⟨.downloadSend, by simp [StreamAnswers.actions],
          by simp [step, hdownload, hreturned]⟩
      · cases hsend : s.scanResult.send blocks with
        | some scanResult =>
            exact Or.inr ⟨.downloadSend, by simp [StreamAnswers.actions],
              by simp [step, hdownload, hreturned, hsend]⟩
        | none =>
            -- the channel is full, so the processing task has something to receive
            obtain ⟨y, c, hrecv⟩ := Channel.recv_of_send_none (by decide) hsend
            exact Or.inr (processing_progress x (by simpa using hreturned)
              (fun _ => Or.inl (by simp [hrecv])))
  | sendEnd =>
      exact Or.inr (downloadSend_progress x (.ok []) (fun s' hsend => by
        simp [step, hdownload, hsend]))
  | sendError e =>
      exact Or.inr (downloadSend_progress x (.error e) (fun s' hsend => by
        simp [step, hdownload, hsend]))
  | done | noTip =>
      have hdone : s.download.returned = true := by simp [hdownload, DownloadTask.returned]
      by_cases hreturned : s.processing.returned = true
      · by_cases hconsumer : s.consumer = .receiving
        · refine Or.inr ⟨.receive, by simp [StreamAnswers.actions], ?_⟩
          cases hrecv : s.results.recv with
          | none => simp [step, hconsumer, hrecv, hdone, hreturned]
          | some p =>
              obtain ⟨y, results⟩ := p
              simp only [step, hconsumer, hrecv]
              cases y with
              | error e => rfl
              | ok batch => cases batch <;> rfl
        · exact Or.inl ⟨hdone, hreturned, hconsumer⟩
      · exact Or.inr (processing_progress x (by simpa using hreturned) (fun _ => Or.inr hdone))

end Progress

/-! ## No endless run -/

/-- The steps that a task can still take on what it has in its hands. -/
def DownloadTask.steps : DownloadTask → Nat
  | .tipInfo => 3
  | .fetching => 2
  | .sendBlocks _ _ => 7
  | .sendEnd => 2
  | .sendError _ => 2
  | .done => 0
  | .noTip => 0

def ProcessingTask.steps : ProcessingTask → Nat
  | .buildPool => 3
  | .receiving => 1
  | .processing _ => 4
  | .sendResult _ _ => 3
  | .sendPoolError _ => 2
  | .failed => 0
  | .done => 0

def StreamConsumer.steps (c : StreamConsumer) : Nat := if c = .receiving then 1 else 0

/-- A page in the channel is received, processed and sent on; a message is received. -/
def ScanStream.steps (s : ScanStream) : Nat :=
  s.download.steps + s.processing.steps + s.consumer.steps + 4 * s.scanResult.items.length +
    s.results.items.length

/-- What a page adds to the steps. -/
def StreamAction.adds : StreamAction → Nat
  | .fetch _ _ => 6
  | _ => 0

section Measure

variable {s s' : ScanStream}

theorem sendResult_steps {result : Except WalletError (List BlockScanResult)}
    (h : s.sendResult result = some s') :
    s'.download = s.download ∧ s'.processing = s.processing ∧ s'.consumer = s.consumer ∧
      s'.scanResult = s.scanResult ∧ s'.results.items.length ≤ s.results.items.length + 1 := by
  unfold sendResult at h
  split at h
  · obtain ⟨results, hsend, rfl⟩ := Option.map_eq_some_iff.mp h
    exact ⟨rfl, rfl, rfl, rfl, le_of_eq (Channel.length_send hsend)⟩
  · cases h
    exact ⟨rfl, rfl, rfl, rfl, Nat.le_succ _⟩

theorem steps_download {a : StreamAction} (ha : a = .downloadSend) (h : step s a = some s') :
    s'.steps < s.steps := by
  subst ha
  simp only [step] at h
  split at h
  · next blocks moreBlocks hdownload =>
      split at h
      · cases h
        simp [ScanStream.steps, hdownload, DownloadTask.steps]
      · obtain ⟨scanResult, hsend, rfl⟩ := Option.map_eq_some_iff.mp h
        have hlength := Channel.length_send hsend
        cases moreBlocks <;> simp [ScanStream.steps, hdownload, DownloadTask.steps, hlength] <;> omega
  · next hdownload =>
      obtain ⟨t, hsend, rfl⟩ := Option.map_eq_some_iff.mp h
      obtain ⟨-, hprocessing, hconsumer, hscan, hlength⟩ := sendResult_steps hsend
      simp only [ScanStream.steps, hdownload, DownloadTask.steps, hprocessing, hconsumer, hscan]
      omega
  · next e hdownload =>
      obtain ⟨t, hsend, rfl⟩ := Option.map_eq_some_iff.mp h
      obtain ⟨-, hprocessing, hconsumer, hscan, hlength⟩ := sendResult_steps hsend
      simp only [ScanStream.steps, hdownload, DownloadTask.steps, hprocessing, hconsumer, hscan]
      omega
  · cases h

/-- Every step uses up one of the steps left, but for what a page adds. -/
theorem steps_step {a : StreamAction} (h : step s a = some s') : s'.steps < s.steps + a.adds := by
  cases a with
  | tipInfo answer =>
      simp only [step] at h
      split at h
      · next hdownload =>
          cases h
          simp [ScanStream.steps, StreamAction.adds, hdownload, DownloadTask.steps]
      · next hdownload =>
          split at h <;> cases h <;>
            simp [ScanStream.steps, StreamAction.adds, hdownload, DownloadTask.steps]
      · cases h
  | fetch startHeader response =>
      simp only [step] at h
      split at h
      · next hdownload _ =>
          cases h
          simp [ScanStream.steps, StreamAction.adds, hdownload, DownloadTask.steps]
          omega
      · next hdownload _ =>
          cases h
          simp [ScanStream.steps, StreamAction.adds, hdownload, DownloadTask.steps]
      · cases h
  | downloadSend => exact steps_download rfl h
  | buildPool error =>
      simp only [step] at h
      split at h
      · next hprocessing =>
          cases h
          simp [ScanStream.steps, StreamAction.adds, hprocessing, ProcessingTask.steps]
      · next hprocessing =>
          cases h
          simp [ScanStream.steps, StreamAction.adds, hprocessing, ProcessingTask.steps]
      · cases h
  | processingReceive =>
      simp only [step] at h
      split at h
      · next hprocessing hrecv =>
          cases h
          have hlength := Channel.length_recv hrecv
          simp only [ScanStream.steps, StreamAction.adds, hprocessing, ProcessingTask.steps, hlength]
          omega
      · next hprocessing _ =>
          split at h
          · cases h
            simp [ScanStream.steps, StreamAction.adds, hprocessing, ProcessingTask.steps]
          · cases h
      · cases h
  | process order recognise =>
      simp only [step] at h
      split at h
      · next hprocessing =>
          split at h
          · cases h
            simp [ScanStream.steps, StreamAction.adds, hprocessing, ProcessingTask.steps]
          · cases h
      · cases h
  | processingSend =>
      simp only [step] at h
      split at h
      · next hprocessing =>
          obtain ⟨t, hsend, rfl⟩ := Option.map_eq_some_iff.mp h
          obtain ⟨hdownload, -, hconsumer, hscan, hlength⟩ := sendResult_steps hsend
          split <;> simp only [ScanStream.steps, StreamAction.adds, hprocessing,
            ProcessingTask.steps, hdownload, hconsumer, hscan] <;> omega
      · next hprocessing =>
          obtain ⟨t, hsend, rfl⟩ := Option.map_eq_some_iff.mp h
          obtain ⟨hdownload, -, hconsumer, hscan, hlength⟩ := sendResult_steps hsend
          simp only [ScanStream.steps, StreamAction.adds, hprocessing, ProcessingTask.steps,
            hdownload, hconsumer, hscan]
          omega
      · cases h
  | receive =>
      simp only [step] at h
      split at h
      · next hconsumer hrecv =>
          cases h
          have hlength := Channel.length_recv hrecv
          simp [ScanStream.steps, StreamAction.adds, hconsumer, StreamConsumer.steps, hlength]
          omega
      · next hconsumer hrecv =>
          cases h
          have hlength := Channel.length_recv hrecv
          simp [ScanStream.steps, StreamAction.adds, hlength]
      · next hconsumer hrecv =>
          cases h
          have hlength := Channel.length_recv hrecv
          simp [ScanStream.steps, StreamAction.adds, hconsumer, StreamConsumer.steps, hlength]
          omega
      · next hconsumer _ =>
          split at h
          · cases h
            simp [ScanStream.steps, StreamAction.adds, hconsumer, StreamConsumer.steps]
          · cases h
      · cases h
  | leave =>
      simp only [step] at h
      split at h
      · next hconsumer =>
          cases h
          simp [ScanStream.steps, StreamAction.adds, hconsumer, StreamConsumer.steps]
      · cases h

end Measure

/-! ## Runs -/

/-- The requests for pages in a run. -/
def fetchCount (as : List StreamAction) : Nat :=
  as.countP (fun a => match a with
    | .fetch _ _ => true
    | _ => false)

theorem sum_adds (as : List StreamAction) : (as.map StreamAction.adds).sum = 6 * fetchCount as := by
  induction as with
  | nil => rfl
  | cons a as ih =>
      simp only [fetchCount] at ih ⊢
      cases a <;> simp [StreamAction.adds, ih]
      omega

/-- A scan that asks for `n` pages takes at most `6 * n + 7` steps, in whatever order the tasks and
    the consumer take them; and until they are done one of them can go on, whatever the answers. So
    a scan of a chain of finitely many pages ends. -/
theorem scanStream_ends {config : ScanConfig} {s s' : ScanStream} {as : List StreamAction}
    (hstart : scanBlocks config = .ok s) (hrun : Transition.run step s as = some s') :
    as.length ≤ 6 * fetchCount as + 7 ∧
      ∀ x : StreamAnswers, s'.Ended ∨ ∃ a ∈ x.actions s', (step s' a).isSome = true := by
  refine ⟨?_, fun x => ended_or_progress s' x⟩
  have hstarts : s.steps = 7 := by
    unfold scanBlocks at hstart
    split at hstart
    · cases hstart
    · cases hstart
      rfl
  have hle := Transition.length_le_of_measure (m := ScanStream.steps) (c := StreamAction.adds)
    (fun _ _ _ => steps_step) hrun
  rw [sum_adds, hstarts] at hle
  omega

/-- A scan of one block. -/
theorem scanStream_ends_oneBlock : ∃ s', Transition.run step exampleStream oneBlockInTurn = some s' ∧
    oneBlockInTurn.length ≤ 6 * fetchCount oneBlockInTurn + 7 := by
  obtain ⟨s', hrun, -⟩ := Transition.exists_run_of_any (f := step) (s := exampleStream)
    (l := oneBlockInTurn) (q := fun s => decide (s.consumer = .finished)) (by decide +kernel)
  have hstart : scanBlocks ⟨0, none, 50⟩ = .ok exampleStream := rfl
  exact ⟨s', hrun, (scanStream_ends hstart hrun).1⟩

end MinotariWallet
