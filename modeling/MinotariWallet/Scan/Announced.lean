import MinotariWallet.Scan.Gapless

set_option autoImplicit false

/-! # What the block processor announces

The processor sends the events of a block as soon as it is done with it. `process_blocks` commits
after the last block of its batch, so the events of the blocks before one that fails are out while
their changes are undone. -/

namespace MinotariWallet

open Sql Exec

variable {env : ScanEnv} {bp : BlockProcessor} {now : Timestamp} {accountId : AccountId}

/-- The events that the processor has sent for these blocks when the batch is done with or has
    failed. -/
def sentEvents (env : ScanEnv) (bp : BlockProcessor) (now : Timestamp) (accountId : AccountId) :
    List BlockScanResult → Conn Db → List ProcessingEvent
  | [], _ => []
  | block :: rest, c =>
    match bp.processBlock env now block accountId c with
    | .ok outcome c' => outcome.processingEvents ++ sentEvents env bp now accountId rest c'
    | .error _ _ => []

/-- The event is one of the block. -/
def ProcessingEvent.Concerns (accountId : AccountId) (block : BlockScanResult) :
    ProcessingEvent → Prop
  | .blockProcessed event =>
    event.accountId = accountId ∧ event.height = block.height ∧ event.blockHash = block.blockHash
  | .transactionsReady event =>
    event.accountId = accountId ∧ event.blockHeight = some block.height

/-- The block is recorded for the account. -/
def OnRecord (accountId : AccountId) (block : BlockScanResult) (db : Db) : Prop :=
  ∃ r ∈ db.scannedTipBlocks.rows,
    r.accountId = accountId ∧ r.height = asI64 block.height ∧ r.hash = block.blockHash

/-- `process_blocks` announces what it commits and nothing else. -/
structure AnnouncesCommitted (env : ScanEnv) (bp : BlockProcessor) (now : Timestamp)
    (blocks : List BlockScanResult) (accountId : AccountId) (nextBlockToScan : Nat) (c : Conn Db) :
    Prop where
  committed : ∀ event ∈ sentEvents env bp now accountId
      (blocks.filter (fun block => nextBlockToScan ≤ block.height)) c,
    ∃ block ∈ blocks, nextBlockToScan ≤ block.height ∧ event.Concerns accountId block ∧
      ∃ events c', processBlocks env bp now blocks accountId nextBlockToScan c = .ok events c' ∧
        OnRecord accountId block c'.store
  noneOnError : ∀ e c', processBlocks env bp now blocks accountId nextBlockToScan c = .error e c' →
    sentEvents env bp now accountId
      (blocks.filter (fun block => nextBlockToScan ≤ block.height)) c = []

/-- The loop of `process_blocks` over these blocks, from the wallet events of those before. -/
def processEach (env : ScanEnv) (bp : BlockProcessor) (now : Timestamp) (accountId : AccountId)
    (events : List WalletEvent) (blocks : List BlockScanResult) : DbM (List WalletEvent) :=
  blocks.foldlM (fun events block => do
    let outcome ← bp.processBlock env now block accountId
    pure (events ++ outcome.walletEvents)) events

/-- What is left of the transaction of `process_blocks` with these blocks still to come. -/
def processRest (env : ScanEnv) (bp : BlockProcessor) (now : Timestamp) (accountId : AccountId)
    (events : List WalletEvent) (rest : List BlockScanResult) : DbM (List WalletEvent) := do
  let events ← processEach env bp now accountId events rest
  update id
  pure events

/-- The first block that is not skipped is processed, and what fails comes later: in another block, or
    in the commit. -/
def FailsPastFirst (env : ScanEnv) (bp : BlockProcessor) (now : Timestamp)
    (blocks : List BlockScanResult) (accountId : AccountId) (nextBlockToScan : Nat) (c : Conn Db) :
    Prop :=
  ∃ first rest outcome c₁, blocks.filter (fun block => nextBlockToScan ≤ block.height) =
      first :: rest ∧
    bp.processBlock env now first accountId c = .ok outcome c₁ ∧
    ∃ e c₂, processRest env bp now accountId outcome.walletEvents rest c₁ = .error e c₂

/-! ## The events of a block -/

/-- The accumulator is that of the block. -/
def BlockEventAccumulator.IsFor (accountId : AccountId) (block : BlockScanResult)
    (acc : BlockEventAccumulator) : Prop :=
  acc.accountId = accountId ∧ acc.height = block.height ∧ acc.blockHash = block.blockHash

variable {block : BlockScanResult}

theorem processOutput_isFor {key : PrivateKey} {st : BlockProcessor.LoopState}
    {w : FixedHash × WalletOutput × Nat} :
    Ensures (fun _ => st.acc.IsFor accountId block)
      (BlockProcessor.processOutput env bp now block accountId key st w)
      (fun st' _ => st'.acc.IsFor accountId block) := by
  unfold BlockProcessor.processOutput
  dsimp only
  split
  · exact Ensures.pure (fun _ h => h)
  · refine Ensures.ite (fun _ => Ensures.pure (fun _ h => h)) (fun _ => ?_)
    refine Ensures.bind (Q := fun _ _ => st.acc.IsFor accountId block)
      (Ensures.stmt (fun _ _ _ h _ => h)) (fun _ => ?_)
    refine Ensures.bind (Q := fun _ _ => st.acc.IsFor accountId block)
      (Ensures.insert (fun _ h => h)) (fun _ => ?_)
    refine Ensures.bind (Q := fun _ _ => st.acc.IsFor accountId block)
      (Ensures.insert (fun _ h => h)) (fun _ => ?_)
    exact Ensures.pure (fun _ h => h)

theorem processInput_isFor {acc : BlockEventAccumulator} {hash : FixedHash} :
    Ensures (fun _ => acc.IsFor accountId block)
      (BlockProcessor.processInput now block accountId acc hash)
      (fun acc' _ => acc'.IsFor accountId block) := by
  unfold BlockProcessor.processInput
  refine Ensures.bind (Q := fun _ _ => acc.IsFor accountId block) (Ensures.query (fun _ h => h))
    (fun info => ?_)
  cases info with
  | none => exact Ensures.pure (fun _ h => h)
  | some info =>
      refine Ensures.bind (Q := fun _ _ => acc.IsFor accountId block) (fun _ _ _ h _ => h)
        (fun _ => ?_)
      refine Ensures.bind (Q := fun _ _ => acc.IsFor accountId block)
        (Ensures.insert (fun _ h => h)) (fun _ => ?_)
      refine Ensures.bind (Q := fun _ _ => acc.IsFor accountId block)
        (Ensures.update (fun _ h => h)) (fun _ => ?_)
      exact Ensures.pure (fun _ h => h)

/-- A processed block has sent events, which are all about it. -/
theorem processBlock_events {c c' : Conn Db} {outcome : BlockOutcome}
    (h : bp.processBlock env now block accountId c = .ok outcome c') :
    outcome.processingEvents ≠ [] ∧
      ∀ event ∈ outcome.processingEvents, event.Concerns accountId block := by
  obtain ⟨key, c₁, -, h⟩ := bind_ok.mp h
  obtain ⟨st, c₂, houtputs, h⟩ := bind_ok.mp h
  obtain ⟨acc, c₃, hinputs, h⟩ := bind_ok.mp h
  obtain ⟨_, c₄, -, h⟩ := bind_ok.mp h
  obtain ⟨confirmed, c₅, -, h⟩ := bind_ok.mp h
  obtain ⟨ready, c₆, hready, h⟩ := bind_ok.mp h
  obtain ⟨rfl, -⟩ := pure_ok.mp h
  have hst : st.acc.IsFor accountId block := by
    obtain ⟨st', c₇, hloop, hrest⟩ := bind_ok.mp houtputs
    obtain ⟨_, c₈, -, hrest⟩ := bind_ok.mp hrest
    obtain ⟨rfl, -⟩ := pure_ok.mp hrest
    exact Ensures.foldlM (I := fun _ st (_ : Db) => st.acc.IsFor accountId block)
      block.walletOutputs _ (fun w rest st => processOutput_isFor) c₁ st' c₇ ⟨rfl, rfl, rfl⟩ hloop
  have hacc : acc.IsFor accountId block :=
    Ensures.foldlM (I := fun _ acc (_ : Db) => acc.IsFor accountId block) block.inputs st.acc
      (fun hash rest acc => processInput_isFor) c₂ acc c₃ hst hinputs
  refine ⟨by simp, fun event hevent => ?_⟩
  rcases List.mem_append.mp hevent with hevent | hevent
  · -- the only other event is that the transactions are ready
    unfold BlockProcessor.saveAndEmitDisplayedTransactions at hready
    split at hready
    · obtain ⟨rfl, -⟩ := pure_ok.mp hready
      cases hevent
    · obtain ⟨transactions, c₇, -, hready⟩ := bind_ok.mp hready
      obtain ⟨_, c₈, -, hready⟩ := bind_ok.mp hready
      obtain ⟨_, c₉, -, hready⟩ := bind_ok.mp hready
      obtain ⟨rfl, -⟩ := pure_ok.mp hready
      rw [List.mem_singleton.mp hevent]
      exact ⟨rfl, rfl⟩
  · rw [List.mem_singleton.mp hevent]
    exact hacc

/-! ## The events of a batch -/

/-- Blocks that are all processed: their events are about them, and they are recorded. -/
theorem sentEvents_recorded {blocks : List BlockScanResult} {events events' : List WalletEvent}
    {c c' : Conn Db} (h : processEach env bp now accountId events blocks c = .ok events' c') :
    (∀ r ∈ c.store.scannedTipBlocks.rows, r ∈ c'.store.scannedTipBlocks.rows) ∧
      ∀ event ∈ sentEvents env bp now accountId blocks c,
        ∃ block ∈ blocks, event.Concerns accountId block ∧ OnRecord accountId block c'.store := by
  induction blocks generalizing events c with
  | nil =>
      obtain ⟨-, rfl⟩ := pure_ok.mp h
      exact ⟨fun _ hr => hr, fun event hevent => by cases hevent⟩
  | cons block rest ih =>
      unfold processEach at h
      rw [List.foldlM_cons] at h
      obtain ⟨_, c₁, hbody, hrest⟩ := bind_ok.mp h
      obtain ⟨outcome, c₂, hblock, hbody⟩ := bind_ok.mp hbody
      obtain ⟨rfl, rfl⟩ := pure_ok.mp hbody
      obtain ⟨hkept, hsent⟩ := ih hrest
      have hrecorded := processBlock_tipRecorded env bp now block accountId _ c outcome c₂ rfl hblock
      refine ⟨fun r hr => hkept r (hrecorded.kept r hr), fun event hevent => ?_⟩
      simp only [sentEvents, hblock, List.mem_append] at hevent
      rcases hevent with hevent | hevent
      · obtain ⟨r, hr, hrow⟩ := hrecorded.recorded
        exact ⟨block, List.mem_cons_self, (processBlock_events hblock).2 event hevent, r,
          hkept r hr, hrow⟩
      · obtain ⟨later, hlater, hthis⟩ := hsent event hevent
        exact ⟨later, List.mem_cons_of_mem _ hlater, hthis⟩

theorem processRest_cons (events : List WalletEvent) (rest : List BlockScanResult)
    {first : BlockScanResult} {outcome : BlockOutcome} {c c₁ : Conn Db}
    (hfirst : bp.processBlock env now first accountId c = .ok outcome c₁) :
    processRest env bp now accountId events (first :: rest) c =
      processRest env bp now accountId (events ++ outcome.walletEvents) rest c₁ := by
  unfold processRest processEach
  rw [List.foldlM_cons]
  show EStateM.bind (EStateM.bind (EStateM.bind _ _) _) _ c = _
  unfold EStateM.bind
  rw [hfirst]
  rfl

/-- `process_blocks` is the first block, and the rest. -/
theorem processBlocks_cons {blocks rest : List BlockScanResult} {first : BlockScanResult}
    {next : Nat} {outcome : BlockOutcome} {c c₁ : Conn Db}
    (hblocks : blocks.filter (fun block => next ≤ block.height) = first :: rest)
    (hfirst : bp.processBlock env now first accountId c = .ok outcome c₁) :
    processBlocks env bp now blocks accountId next c =
      match processRest env bp now accountId outcome.walletEvents rest c₁ with
      | .ok events c' => .ok events c'
      | .error e c' => .error e ⟨c.store, c'.budget⟩ := by
  have hrun := processRest_cons [] rest hfirst
  rw [List.nil_append] at hrun
  rw [← hrun, ← hblocks]
  unfold processBlocks inTransaction
  split
  · next events c' hrest => simp only [processRest, processEach, hrest]
  · next e c' hrest => simp only [processRest, processEach, hrest]

/-- `process_blocks` announces what it commits and nothing else if and only if it does not fail past
    its first block. -/
theorem announcesCommitted_iff (env : ScanEnv) (bp : BlockProcessor) (now : Timestamp)
    (blocks : List BlockScanResult) (accountId : AccountId) (nextBlockToScan : Nat) (c : Conn Db) :
    AnnouncesCommitted env bp now blocks accountId nextBlockToScan c ↔
      ¬FailsPastFirst env bp now blocks accountId nextBlockToScan c := by
  cases hblocks : blocks.filter (fun block => nextBlockToScan ≤ block.height) with
  | nil =>
      refine ⟨fun _ hfails => ?_, fun _ => ⟨fun event hevent => ?_, fun _ _ _ => ?_⟩⟩
      · obtain ⟨first, rest, outcome, c₁, hcons, -⟩ := hfails
        rw [hblocks] at hcons
        cases hcons
      · rw [hblocks] at hevent
        cases hevent
      · rw [hblocks]
        rfl
  | cons first rest =>
      cases hfirst : bp.processBlock env now first accountId c with
      | error e c₁ =>
          have hnone : sentEvents env bp now accountId (first :: rest) c = [] := by
            simp only [sentEvents, hfirst]
          refine ⟨fun _ hfails => ?_, fun _ => ⟨fun event hevent => ?_, fun _ _ _ => ?_⟩⟩
          · obtain ⟨first', rest', outcome, c₂, hcons, hok, -⟩ := hfails
            rw [hblocks] at hcons
            cases hcons
            rw [hfirst] at hok
            cases hok
          · rw [hblocks, hnone] at hevent
            cases hevent
          · rw [hblocks, hnone]
      | ok outcome c₁ =>
          have hrun := processBlocks_cons hblocks hfirst
          have hsent : sentEvents env bp now accountId (first :: rest) c =
              outcome.processingEvents ++ sentEvents env bp now accountId rest c₁ := by
            simp only [sentEvents, hfirst]
          cases hrest : processRest env bp now accountId outcome.walletEvents rest c₁ with
          | error e c₂ =>
              refine ⟨fun h => ?_, fun h => absurd ⟨first, rest, outcome, c₁, hblocks, hfirst, e,
                c₂, hrest⟩ h⟩
              rw [hrest] at hrun
              have hnone := h.noneOnError e _ hrun
              rw [hblocks, hsent] at hnone
              exact absurd (List.append_eq_nil_iff.mp hnone).1 (processBlock_events hfirst).1
          | ok events c₂ =>
              rw [hrest] at hrun
              refine ⟨fun _ hfails => ?_, fun _ => ⟨fun event hevent => ?_, fun e c' herr => ?_⟩⟩
              · obtain ⟨first', rest', outcome', c₁', hcons, hok, e, c₃, hfail⟩ := hfails
                rw [hblocks] at hcons
                cases hcons
                rw [hfirst] at hok
                cases hok
                rw [hrest] at hfail
                cases hfail
              · -- every block is processed, and the commit keeps what they left
                rw [hblocks] at hevent
                obtain ⟨events', c₃, heach, hcommit⟩ := bind_ok.mp hrest
                obtain ⟨_, c₄, hupdate, hpure⟩ := bind_ok.mp hcommit
                obtain ⟨-, hc₄⟩ := pure_ok.mp hpure
                have hstore : c₂.store = c₃.store := by
                  have hstmt := stmt_ok hupdate
                  rw [hc₄] at hstmt
                  simp only [Except.ok.injEq, Prod.mk.injEq, id, true_and] at hstmt
                  exact hstmt.symm
                have hall : processEach env bp now accountId [] (first :: rest) c =
                    .ok events' c₃ := by
                  unfold processEach
                  rw [List.foldlM_cons]
                  exact bind_ok.mpr ⟨_, c₁, bind_ok.mpr ⟨outcome, c₁, hfirst, rfl⟩, heach⟩
                obtain ⟨block, hblock, hconcerns, hrecord⟩ :=
                  (sentEvents_recorded hall).2 event hevent
                have hmem : block ∈ blocks.filter (fun block => nextBlockToScan ≤ block.height) :=
                  hblocks ▸ hblock
                obtain ⟨hblock, hge⟩ := List.mem_filter.mp hmem
                refine ⟨block, hblock, of_decide_eq_true hge, hconcerns, events, c₂, hrun, ?_⟩
                rwa [OnRecord, hstore]
              · rw [hrun] at herr
                cases herr

/-- Two blocks, each with an output of account 1. -/
def twoReceipts : List BlockScanResult :=
  [⟨1, 101, [(500, { outputHash := 500, value := 10 }, 0)], [], 1000⟩,
    ⟨2, 102, [(501, { outputHash := 501, value := 5 }, 0)], [], 1120⟩]

/-- The second of them fails after its output is stored: block 1 is announced, and nothing of it is in
    the database. -/
theorem twoReceipts_announced :
    let bp := BlockProcessor.withEventSender [(1, 7)] 3
    ¬AnnouncesCommitted plainEnv bp 0 twoReceipts 1 1 ⟨Db.empty, some 9⟩ ∧
      (sentEvents plainEnv bp 0 1 twoReceipts ⟨Db.empty, some 9⟩).length = 2 ∧
      ∃ e c, processBlocks plainEnv bp 0 twoReceipts 1 1 ⟨Db.empty, some 9⟩ = .error e c ∧
        c.store.outputs.rows = [] ∧ c.store.scannedTipBlocks.rows = [] := by
  have hsent : (sentEvents plainEnv (BlockProcessor.withEventSender [(1, 7)] 3) 0 1 twoReceipts
      ⟨Db.empty, some 9⟩).length = 2 := by decide +kernel
  have hfails : (match processBlocks plainEnv (BlockProcessor.withEventSender [(1, 7)] 3) 0
      twoReceipts 1 1 ⟨Db.empty, some 9⟩ with
    | .ok _ _ => false
    | .error _ c => decide (c.store.outputs.rows = [] ∧ c.store.scannedTipBlocks.rows = [])) =
      true := by decide +kernel
  split at hfails
  · cases hfails
  · next e c hrun =>
      refine ⟨fun h => ?_, hsent, e, c, hrun, of_decide_eq_true hfails⟩
      have hnone : sentEvents plainEnv (BlockProcessor.withEventSender [(1, 7)] 3) 0 1 twoReceipts
        ⟨Db.empty, some 9⟩ = [] := h.noneOnError e c hrun
      rw [hnone] at hsent
      cases hsent

end MinotariWallet
