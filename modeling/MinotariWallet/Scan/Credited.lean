import MinotariWallet.Scan.Gapless

set_option autoImplicit false

/-! # Who is credited

The scanner numbers the key managers of the active accounts; the block processor reads the number as
an index into the list of all accounts, which it was given before the first iteration. An output
goes to the account that recognised it exactly where the two numberings agree. -/

namespace MinotariWallet

open Sql Exec

/-! ## What is recorded -/

section Recording

/-- The outputs that were inserted since the counter stood at `seq`, in their order. -/
def outputsSince (seq : Nat) (outputs : AutoTable OutputRow) : List (AccountId × FixedHash) :=
  (outputs.select (fun o => decide (seq < o.id))).map (fun o => (o.accountId, o.outputHash))

theorem outputsSince_self (outputs : AutoTable OutputRow) :
    outputsSince outputs.seq outputs = [] := by
  unfold outputsSince Table.select
  rw [List.filter_eq_nil_iff.mpr, List.map_nil]
  intro o ho
  have hid : o.id ≤ outputs.seq := outputs.bounded o ho
  simpa using hid

theorem outputsSince_insert {seq : Nat} (outputs : AutoTable OutputRow) (hseq : seq ≤ outputs.seq)
    {m : Id → OutputRow} (hmk : ∀ k, key (m k) = k) :
    outputsSince seq (outputs.insert m hmk) = outputsSince seq outputs ++
      [((m (outputs.seq + 1)).accountId, (m (outputs.seq + 1)).outputHash)] := by
  have hid : (m (outputs.seq + 1)).id = outputs.seq + 1 := hmk _
  have hnew : seq < (m (outputs.seq + 1)).id := by
    rw [hid]
    exact Nat.lt_succ_of_le hseq
  simp [outputsSince, Table.select, AutoTable.insert, List.filter_append, hnew]

theorem outputsSince_updateWhere {seq : Nat} {outputs : AutoTable OutputRow}
    {p : OutputRow → Bool} {f : OutputRow → OutputRow} (hf : ∀ o, key (f o) = key o)
    (hview : ∀ o, (f o).accountId = o.accountId ∧ (f o).outputHash = o.outputHash) :
    outputsSince seq (outputs.updateWhere p f hf) = outputsSince seq outputs := by
  refine Table.map_select_updateWhere (t := outputs.toTable) (fun o _ => ?_) (fun o _ => ?_) hf
  · have hid : (f o).id = o.id := hf o
    rw [hid]
  · rw [(hview o).1, (hview o).2]

variable (env : ScanEnv) (bp : BlockProcessor) (now : Timestamp) (block : BlockScanResult)
  (accountId : AccountId)

/-- What `process_block` records of the outputs for the account. -/
def creditedOutputs (bp : BlockProcessor) (accountId : AccountId)
    (walletOutputs : List (FixedHash × WalletOutput × Nat)) : List (AccountId × FixedHash) :=
  (walletOutputs.filter (fun w => bp.walletIndexToAccountId[w.2.2]? == some accountId)).map
    (fun w => (accountId, w.1))

/-- The outputs recorded so far while the account processes a block. -/
def creditedSoFar (seq : Nat) (before : List (AccountId × FixedHash))
    (rest : List (FixedHash × WalletOutput × Nat)) (L : Ledger) : Prop :=
  seq ≤ L.outputs.seq ∧ outputsSince seq L.outputs ++ creditedOutputs bp accountId rest =
    before ++ creditedOutputs bp accountId block.walletOutputs

theorem credited_rule (seq : Nat) (before : List (AccountId × FixedHash)) :
    BlockRule env bp now block accountId (creditedSoFar bp block accountId seq before)
      (fun _ => creditedSoFar bp block accountId seq before [])
      (creditedSoFar bp block accountId seq before []) where
  skip w rest L hidx h := by
    refine ⟨h.1, ?_⟩
    have hskip : creditedOutputs bp accountId (w :: rest) = creditedOutputs bp accountId rest := by
      simp [creditedOutputs, hidx]
    rw [← hskip]
    exact h.2
  credit w rest key memo payref id db₁ db₂ hidx hins h := by
    obtain ⟨timestamp, -, -, -, rfl⟩ := insertOutput_ok hins
    obtain ⟨hseq, hsince⟩ := h
    refine ⟨Nat.le_succ_of_le hseq, ?_⟩
    have hcredit : creditedOutputs bp accountId (w :: rest) =
        (accountId, w.1) :: creditedOutputs bp accountId rest := by
      simp [creditedOutputs, hidx]
    rw [hcredit] at hsince
    have hinsert := outputsSince_insert db₁.outputs hseq
      (m := newOutputRow env.toExternals accountId key w.1 w.2.1 block.height block.blockHash
        timestamp memo.parsed memo.hex payref w.2.1.isBurned) (by intro _; rfl)
    refine Eq.trans ?_ hsince
    simp only [Db.ledger, Db.insertBalanceChange]
    rw [hinsert, List.append_assoc]
    rfl
  outputsDone _ h := h
  ignore _ _ _ _ h := h
  debit hash rest info timestamp inputId db₁ _ _ h := by
    obtain ⟨hseq, hsince⟩ := h
    have houtputs := outputs_insertOrIgnoreInput db₁ accountId info.id block.height block.blockHash
      timestamp
    refine ⟨?_, Eq.trans (congrArg (· ++ _) ?_) hsince⟩
    · simpa [Db.ledger, Db.updateOutputStatus, Db.insertBalanceChange, houtputs] using hseq
    · simp only [Db.ledger, Db.updateOutputStatus, Db.insertBalanceChange, houtputs]
      exact outputsSince_updateWhere (by intro _; rfl) (by intro _; exact ⟨rfl, rfl⟩)
  record db₁ h := by
    unfold Db.insertScannedTipBlock
    split <;> exact h
  confirm db₁ hash h := by
    obtain ⟨hseq, hsince⟩ := h
    refine ⟨hseq, Eq.trans (congrArg (· ++ _) ?_) hsince⟩
    exact outputsSince_updateWhere (by intro _; rfl) (by intro _; exact ⟨rfl, rfl⟩)

variable {env bp now accountId}

/-- `process_blocks` records, for the account, the outputs of the blocks that it does not skip. -/
theorem processBlocks_credited {blocks : List BlockScanResult} {next seq : Nat}
    {events : List WalletEvent} {c c' : Conn Db} (hseq : seq ≤ c.store.outputs.seq)
    (h : processBlocks env bp now blocks accountId next c = .ok events c') :
    seq ≤ c'.store.outputs.seq ∧ outputsSince seq c'.store.outputs =
      outputsSince seq c.store.outputs ++ (blocks.filter (fun b => next ≤ b.height)).flatMap
        (fun b => creditedOutputs bp accountId b.walletOutputs) := by
  let todo : List BlockScanResult → List (AccountId × FixedHash) := fun rest =>
    rest.flatMap (fun b => creditedOutputs bp accountId b.walletOutputs)
  have hloop := Ensures.foldlM
    (f := fun (events : List WalletEvent) block => do
      let outcome ← bp.processBlock env now block accountId
      pure (events ++ outcome.walletEvents))
    (I := fun rest _ db => seq ≤ db.outputs.seq ∧ outputsSince seq db.outputs ++ todo rest =
      outputsSince seq c.store.outputs ++ todo (blocks.filter (fun b => next ≤ b.height)))
    (blocks.filter (fun b => next ≤ b.height)) [] (fun b rest events => ?_)
  · have hdone := Ensures.inTransaction hloop c events c' ⟨hseq, rfl⟩ h
    simpa [todo] using hdone
  · refine Ensures.bind (Q := fun _ db => seq ≤ db.outputs.seq ∧
      outputsSince seq db.outputs ++ todo rest = outputsSince seq c.store.outputs ++
        todo (blocks.filter (fun b => next ≤ b.height))) ?_
      (fun outcome => Ensures.pure (fun db hdb => hdb))
    intro c₁ outcome c₂ hpre hrun
    obtain ⟨hseq₁, hsince⟩ := hpre
    obtain ⟨hseq₂, hblock⟩ := processBlock_ensures
      (credited_rule env bp now b accountId seq (outputsSince seq c₁.store.outputs)) c₁ outcome c₂
      ⟨hseq₁, rfl⟩ hrun
    have hcredit : outputsSince seq c₂.store.outputs = outputsSince seq c₁.store.outputs ++
        creditedOutputs bp accountId b.walletOutputs := by
      simpa [Db.ledger, creditedOutputs] using hblock
    refine ⟨hseq₂, ?_⟩
    rw [hcredit, List.append_assoc]
    exact hsince

end Recording

/-! ## The scanner of an iteration -/

section Scanner

/-- The account has the key manager, among the targets. -/
def HasKeyManager (targets : List AccountSyncTarget) (accountId : AccountId) (viewKey : PrivateKey) :
    Prop :=
  ∃ t ∈ targets, t.accountId = accountId ∧ t.viewKey = viewKey

theorem activeKeyManagers_ok {targets : List AccountSyncTarget} {accountIds : List AccountId}
    {keyManagers : List PrivateKey} (h : activeKeyManagers targets accountIds = .ok keyManagers) :
    List.Forall₂ (HasKeyManager targets) accountIds keyManagers := by
  refine (mapM_ok_iff.mp h).imp (fun accountId viewKey hkey => ?_)
  split at hkey
  · next target htarget =>
      cases hkey
      obtain ⟨hmem, hid⟩ := findTarget_some htarget
      exact ⟨target, hmem, hid, rfl⟩
  · cases hkey

/-- The key managers of the scanner are those of the accounts that it was built for. -/
def ScannerStateManager.Matches (targets : List AccountSyncTarget)
    (manager : ScannerStateManager) : Prop :=
  ∀ keyManagers, manager.scanner = some keyManagers →
    List.Forall₂ (HasKeyManager targets) manager.activeAccountIds keyManagers

theorem getScannerAndConfig_ok {manager manager' : ScannerStateManager} {ids : List AccountId}
    {startHeight : Nat} {endHeight : Option Nat} {batchSize : Nat}
    {targets : List AccountSyncTarget} {config : ScanConfig} (hm : manager.Matches targets)
    (h : manager.getScannerAndConfig ids startHeight endHeight batchSize targets =
      .ok (manager', config)) :
    manager'.Matches targets ∧ manager'.activeAccountIds = ids := by
  unfold ScannerStateManager.getScannerAndConfig at h
  split at h
  · next hnew =>
      cases hkeys : activeKeyManagers targets ids with
      | error e => simp [hkeys, bind, Except.bind] at h
      | ok keyManagers =>
          simp only [hkeys, bind, Except.bind, pure, Except.pure, Except.ok.injEq,
            Prod.mk.injEq] at h
          obtain ⟨rfl, -⟩ := h
          refine ⟨fun keys hsome => ?_, rfl⟩
          cases hsome
          exact activeKeyManagers_ok hkeys
  · next hsame =>
      simp only [bind, Except.bind, pure, Except.pure, Except.ok.injEq, Prod.mk.injEq] at h
      obtain ⟨rfl, -⟩ := h
      simp only [not_or, not_not] at hsame
      exact ⟨hm, hsame.2⟩

theorem ScannerStateManager.Matches.congr {targets targets' : List AccountSyncTarget} {manager : ScannerStateManager}
    (h : manager.Matches targets)
    (hkeys : targets.map (fun t => (t.accountId, t.viewKey)) =
      targets'.map (fun t => (t.accountId, t.viewKey))) : manager.Matches targets' := by
  intro keyManagers hsome
  refine (h keyManagers hsome).imp (fun accountId viewKey => ?_)
  rintro ⟨t, ht, rfl, rfl⟩
  have hmem : (t.accountId, t.viewKey) ∈ targets'.map (fun t => (t.accountId, t.viewKey)) :=
    hkeys ▸ List.mem_map_of_mem ht
  obtain ⟨t', ht', heq⟩ := List.mem_map.mp hmem
  simp only [Prod.mk.injEq] at heq
  exact ⟨t', ht', heq⟩

theorem openStream_matches {co : ScanCoordinator} {s : ScanLoop} {manager : ScannerStateManager}
    {stream : UtxoStream} (hm : s.stateManager.Matches s.targets)
    (h : s.openStream co = .ok (manager, stream)) :
    manager.Matches s.targets ∧ manager.activeAccountIds = stream.activeAccountIds := by
  unfold ScanLoop.openStream at h
  simp only [bind, Except.bind] at h
  split at h
  · cases h
  · next found hfound =>
      split at h
      · cases h
      · cases h
        exact getScannerAndConfig_ok hm hfound

end Scanner

namespace ScanLoop

variable {co : ScanCoordinator} {s s' : ScanLoop} {a : ScanAction}
  {start : List AccountSyncTarget}

/-- The scanner and the block processor know the accounts the loop was started with; while a stream
    is open, the scanner is that of its accounts. -/
structure Numbered (start : List AccountSyncTarget) (s : ScanLoop) : Prop where
  keys : s.targets.map (fun t => (t.accountId, t.viewKey)) =
    start.map (fun t => (t.accountId, t.viewKey))
  processor : s.blockProcessor.walletIndexToAccountId = start.map (·.accountId)
  scanner : s.stateManager.Matches start
  stream : ∀ stream rest, s.phase.openStream = some (stream, rest) →
    s.stateManager.activeAccountIds = stream.activeAccountIds

/-- A step that leaves the processor and the scanner alone and moves counters only, and opens no
    other stream. -/
theorem Numbered.of_eq (h : Numbered start s)
    (hkeys : s'.targets.map (fun t => (t.accountId, t.viewKey)) =
      s.targets.map (fun t => (t.accountId, t.viewKey)))
    (hprocessor : s'.blockProcessor = s.blockProcessor) (hmanager : s'.stateManager = s.stateManager)
    (hstream : ∀ stream rest, s'.phase.openStream = some (stream, rest) →
      ∃ stream₀ rest₀, s.phase.openStream = some (stream₀, rest₀) ∧
        stream.activeAccountIds = stream₀.activeAccountIds) : Numbered start s' where
  keys := hkeys.trans h.keys
  processor := hprocessor ▸ h.processor
  scanner := hmanager ▸ h.scanner
  stream stream rest hopen := by
    obtain ⟨stream₀, rest₀, hopen₀, heq⟩ := hstream stream rest hopen
    rw [hmanager, heq]
    exact h.stream stream₀ rest₀ hopen₀

theorem openStream_nextAccount {t : ScanLoop} {stream stream' : UtxoStream}
    {blocks : List BlockScanResult} {rest rest' : List AccountId}
    (h : (t.nextAccount co stream blocks rest).phase.openStream = some (stream', rest')) :
    stream' = stream ∧ rest' = rest := by
  rcases nextAccount_phase co t stream blocks rest with
    ⟨-, hp⟩ | ⟨rfl, hp | hp⟩ <;> rw [hp] at h <;> cases h <;> exact ⟨rfl, rfl⟩

theorem numbered_step (hreg : s.Regular) (hn : Numbered start s) (h : s.step co a = some s') :
    Numbered start s' := by
  cases step_cases hreg h with
  | failed e => exact hn.of_eq rfl rfl rfl nofun
  | cancelled tip hphase => exact hn.of_eq rfl rfl rfl nofun
  | opened tipHeight hphase hopen =>
      obtain ⟨hmatches, hids⟩ := openStream_matches (hn.scanner.congr hn.keys.symm) hopen
      refine ⟨hn.keys, hn.processor, hmatches.congr hn.keys, ?_⟩
      intro stream' rest' heq
      cases heq
      exact hids
  | reopened hphase => exact hn.of_eq rfl rfl rfl nofun
  | limited response hphase => exact hn.of_eq rfl rfl rfl nofun
  | finished hphase hmode => exact hn.of_eq rfl rfl rfl nofun
  | polled hphase hmode =>
      refine hn.of_eq ?_ rfl rfl nofun
      simp [List.map_map, Function.comp_def]
  | received hne hphase =>
      rename_i stream blocks
      obtain ⟨-, htargets, -, hprocessor, hmanager⟩ := nextAccount_fields co s
        (stream.delivered blocks) blocks stream.activeAccountIds
      refine hn.of_eq (by rw [htargets]) hprocessor hmanager (fun stream' rest' hopen => ?_)
      obtain ⟨rfl, -⟩ := openStream_nextAccount hopen
      exact ⟨stream, [], by rw [hphase]; rfl, rfl⟩
  | processed hphase hlast htarget hrun =>
      rename_i stream blocks last accountId accountIds target now budget events c
      obtain ⟨-, htargets, -, hprocessor, hmanager⟩ := nextAccount_fields co { s with
        db := c.store
        targets := setNextBlockToScan s.targets accountId (last.height + 1)
        scanned := s.scanned ++ processedHeights blocks accountId target.nextBlockToScan } stream blocks accountIds
      refine hn.of_eq ?_ hprocessor hmanager (fun stream' rest' hopen => ?_)
      · rw [htargets]
        exact map_setNextBlockToScan (fun _ _ => rfl)
      · obtain ⟨rfl, -⟩ := openStream_nextAccount hopen
        exact ⟨stream', _, by rw [hphase]; rfl, rfl⟩
  | onChain budget hphase hcheck hnone =>
      rename_i stream accountId accountIds _ now result db
      refine hn.of_eq rfl rfl rfl (fun stream' rest' hopen => ?_)
      rw [openStream_checkGlobalReorgs] at hopen
      obtain ⟨st, hsome, heq⟩ := Option.map_eq_some_iff.mp hopen
      cases heq
      exact ⟨stream', [], by rw [hphase, hsome]; rfl, rfl⟩
  | rolledBack budget hphase hcheck hsome =>
      rename_i stream accountId accountIds _ now result db
      refine hn.of_eq (map_setNextBlockToScan (fun _ _ => rfl)) rfl rfl
        (fun stream' rest' hopen => ?_)
      rw [openStream_checkGlobalReorgs, Option.map_map] at hopen
      obtain ⟨st, hst, heq⟩ := Option.map_eq_some_iff.mp hopen
      cases heq
      exact ⟨st, [], by rw [hphase, hst]; rfl, rfl⟩
  | woke hphase => exact hn.of_eq rfl rfl rfl nofun
  | wokeToCheck hphase =>
      refine hn.of_eq rfl rfl rfl (fun stream' rest' hopen => ?_)
      rw [openStream_checkGlobalReorgs] at hopen
      cases hopen

/-! ## A batch -/

/-- The loop goes through the accounts of a batch: what was recorded since it was received is what
    the accounts before `rest` are credited with. -/
structure Crediting (seq : Nat) (stream : UtxoStream) (blocks : List BlockScanResult)
    (done rest : List AccountId) (s : ScanLoop) : Prop where
  split : stream.activeAccountIds = done ++ rest
  counter : seq ≤ s.db.outputs.seq
  recorded : outputsSince seq s.db.outputs = done.flatMap (fun accountId =>
    blocks.flatMap (fun b => creditedOutputs s.blockProcessor accountId b.walletOutputs))
  above : ∀ target ∈ s.targets, target.accountId ∈ rest →
    ∀ b ∈ blocks, target.nextBlockToScan ≤ b.height

variable {seq : Nat} {stream : UtxoStream} {blocks : List BlockScanResult}
  {done rest : List AccountId} {accountId : AccountId}

theorem step_processBlocks_eq_none {now : Timestamp} {budget : Option Nat}
    (h : ∀ stream blocks accountId rest,
      s.phase ≠ .processBatch stream blocks (accountId :: rest)) :
    s.step co (.processBlocks now budget) = none := by
  simp only [step]

/-- The database task of one account. -/
theorem crediting_step {now : Timestamp} {budget : Option Nat} (hreg : s.Regular)
    (hf : s.Following) (hphase : s.phase = .processBatch stream blocks (accountId :: rest))
    (h : Crediting seq stream blocks done (accountId :: rest) s)
    (hstep : s.step co (.processBlocks now budget) = some s') :
    (∃ e, s'.phase = .failed e) ∨
      (Crediting seq stream blocks (done ++ [accountId]) rest s' ∧
        ((rest ≠ [] ∧ s'.phase = .processBatch stream blocks rest) ∨
          (rest = [] ∧ ∀ stream blocks rest, s'.phase ≠ .processBatch stream blocks rest))) := by
  cases step_cases hreg hstep with
  | failed e => exact Or.inl ⟨e, rfl⟩
  | processed hphase' hlast htarget hrun =>
      rename_i stream' blocks' last accountId' rest' target events c
      rw [hphase] at hphase'
      cases hphase'
      obtain ⟨hmem, hid⟩ := findTarget_some htarget
      obtain ⟨hdb, htargets, -, hprocessor, -⟩ := nextAccount_fields co { s with
        db := c.store
        targets := setNextBlockToScan s.targets accountId (last.height + 1)
        scanned := s.scanned ++ processedHeights blocks accountId target.nextBlockToScan } stream blocks rest
      -- the account skips no block of the batch
      have hall : blocks.filter (fun b => target.nextBlockToScan ≤ b.height) = blocks := by
        refine List.filter_eq_self.mpr (fun b hb => ?_)
        have hle := h.above target hmem (by simp [hid]) b hb
        simpa using hle
      obtain ⟨hcounter, hrecorded⟩ := processBlocks_credited h.counter hrun
      rw [hall] at hrecorded
      refine Or.inr ⟨⟨by simpa using h.split, ?_, ?_, ?_⟩, ?_⟩
      · rw [hdb]
        exact hcounter
      · rw [hdb, hprocessor, List.flatMap_append, List.flatMap_singleton, ← h.recorded]
        exact hrecorded
      · rw [htargets]
        intro u hu hin
        have hnodup := (hf.nodup stream (accountId :: rest) (by rw [hphase]; rfl)).2.1
        rcases (mem_setNextBlockToScan hf.ids).mp hu with ⟨hu, -⟩ | ⟨v, hv, hvid, rfl⟩
        · exact h.above u hu (List.mem_cons_of_mem _ hin)
        · exact absurd (hvid ▸ hin) (List.nodup_cons.mp hnodup).1
      · rcases nextAccount_phase co { s with
          db := c.store
          targets := setNextBlockToScan s.targets accountId (last.height + 1)
          scanned := s.scanned ++ processedHeights blocks accountId target.nextBlockToScan } stream blocks rest with hp | ⟨hnil, hp | hp⟩
        · exact Or.inl hp
        · exact Or.inr ⟨hnil, by rw [hp]; nofun⟩
        · exact Or.inr ⟨hnil, by rw [hp]; nofun⟩

/-- The database tasks of a batch, to its end. -/
theorem crediting_run (tasks : List (Timestamp × Option Nat)) (hreg : s.Regular)
    (hf : s.Following) (hphase : s.phase = .processBatch stream blocks rest)
    (h : Crediting seq stream blocks done rest s)
    (hrun : Transition.run (step co) s (tasks.map (fun t => .processBlocks t.1 t.2)) = some s')
    (hend : s'.phase.betweenBatches = true) :
    Crediting seq stream blocks stream.activeAccountIds [] s' := by
  induction tasks generalizing s done rest with
  | nil =>
      cases hrun
      rw [hphase] at hend
      cases hend
  | cons task tasks ih =>
      obtain ⟨t, hstep, hrest⟩ := Transition.run_cons.mp hrun
      -- where the loop takes no task, the run is at its end
      have hstop : (∀ stream blocks accountId rest,
          t.phase ≠ .processBatch stream blocks (accountId :: rest)) → s' = t := by
        intro hne
        cases tasks with
        | nil =>
            cases hrest
            rfl
        | cons task' tasks' =>
            obtain ⟨u, hu, -⟩ := Transition.run_cons.mp hrest
            rw [step_processBlocks_eq_none hne] at hu
            cases hu
      cases rest with
      | nil =>
          rw [step_processBlocks_eq_none (by rw [hphase]; nofun)] at hstep
          cases hstep
      | cons accountId rest =>
          rcases crediting_step hreg hf hphase h hstep with ⟨e, he⟩ | ⟨h', hnext⟩
          · have heq := hstop (by rw [he]; nofun)
            rw [heq, he] at hend
            cases hend
          · rcases hnext with ⟨-, hp⟩ | ⟨rfl, hne⟩
            · exact ih (regular_step hreg hstep) (following_step hreg hf hstep) hp h' hrest
            · rw [hstop (fun stream blocks accountId rest => hne _ _ _)]
              have hsplit : stream.activeAccountIds = done ++ [accountId] := by
                simpa using h.split
              rw [hsplit]
              exact ⟨by simpa using hsplit, h'.counter, h'.recorded, h'.above⟩

end ScanLoop

/-! ## Once, and to the right account -/

section Once

variable {bp : BlockProcessor} {accountIds : List AccountId}
  {walletOutputs : List (FixedHash × WalletOutput × Nat)}

theorem flatMap_creditedOutputs (accountId : AccountId) (blocks : List BlockScanResult) :
    blocks.flatMap (fun b => creditedOutputs bp accountId b.walletOutputs) =
      creditedOutputs bp accountId (blocks.flatMap (·.walletOutputs)) := by
  simp only [creditedOutputs, List.filter_flatMap, List.map_flatMap]

theorem mem_flatMap_creditedOutputs {p : AccountId × FixedHash} :
    p ∈ accountIds.flatMap (fun accountId => creditedOutputs bp accountId walletOutputs) ↔
      p.1 ∈ accountIds ∧ ∃ w ∈ walletOutputs,
        bp.walletIndexToAccountId[w.2.2]? = some p.1 ∧ w.1 = p.2 := by
  simp only [creditedOutputs, List.mem_flatMap, List.mem_map, List.mem_filter, beq_iff_eq]
  constructor
  · rintro ⟨a, ha, w, ⟨hw, hidx⟩, rfl⟩
    exact ⟨ha, w, hw, hidx, rfl⟩
  · rintro ⟨ha, w, hw, hidx, hhash⟩
    exact ⟨p.1, ha, w, ⟨hw, hidx⟩, by rw [hhash]⟩

/-- No output is recorded twice for one account. -/
theorem nodup_flatMap_creditedOutputs (hids : accountIds.Nodup)
    (hhashes : (walletOutputs.map (·.1)).Nodup) :
    (accountIds.flatMap (fun accountId =>
      creditedOutputs bp accountId walletOutputs)).Nodup := by
  refine List.nodup_flatMap.mpr ⟨fun a _ => ?_, hids.imp (fun hne => ?_)⟩
  · have hmap : creditedOutputs bp a walletOutputs = ((walletOutputs.filter (fun w =>
        bp.walletIndexToAccountId[w.2.2]? == some a)).map (·.1)).map (fun h => (a, h)) := by
      simp [creditedOutputs, List.map_map, Function.comp_def]
    rw [hmap]
    refine List.Nodup.map (fun h h' heq => (Prod.mk.inj heq).2) ?_
    exact hhashes.sublist (List.filter_sublist.map _)
  · intro p hp hp'
    simp only [creditedOutputs, List.mem_map] at hp hp'
    obtain ⟨_, _, rfl⟩ := hp
    obtain ⟨_, _, heq⟩ := hp'
    exact hne (Prod.mk.inj heq).1.symm

end Once

namespace ScanLoop

variable {s : ScanLoop} {start : List AccountSyncTarget}

/-- The scanner's key manager at the index is that of the account. -/
def Recognises (targets : List AccountSyncTarget) (s : ScanLoop) (index : Nat)
    (accountId : AccountId) : Prop :=
  s.stateManager.activeAccountIds[index]? = some accountId ∧
    ∃ keyManagers viewKey, s.stateManager.scanner = some keyManagers ∧
      keyManagers[index]? = some viewKey ∧ HasKeyManager targets accountId viewKey

/-- The loop has just received a batch, with outputs of distinct hashes that the scanner's key
    managers have recognised, and no block that an active account has behind it. -/
structure ReceivedBatch (s : ScanLoop) (stream : UtxoStream) (blocks : List BlockScanResult) :
    Prop where
  phase : s.phase = .processBatch stream blocks stream.activeAccountIds
  recognised : ∀ b ∈ blocks, ∀ w ∈ b.walletOutputs,
    ∃ keyManagers, s.stateManager.scanner = some keyManagers ∧ w.2.2 < keyManagers.length
  distinct : ((blocks.flatMap (·.walletOutputs)).map (·.1)).Nodup
  above : ∀ target ∈ s.targets, target.accountId ∈ stream.activeAccountIds →
    ∀ b ∈ blocks, target.nextBlockToScan ≤ b.height

/-- Every output of the batch is recorded once for the account whose key manager recognised it, and
    for no other. -/
def CreditedOnce (targets : List AccountSyncTarget) (s : ScanLoop) (blocks : List BlockScanResult)
    (recorded : List (AccountId × FixedHash)) : Prop :=
  ∀ b ∈ blocks, ∀ w ∈ b.walletOutputs, ∃ accountId, Recognises targets s w.2.2 accountId ∧
    recorded.count (accountId, w.1) = 1 ∧ ∀ a, (a, w.1) ∈ recorded → a = accountId

theorem Numbered.recognises (hn : Numbered start s) {stream : UtxoStream} {rest : List AccountId}
    (hopen : s.phase.openStream = some (stream, rest)) {keyManagers : List PrivateKey}
    (hscanner : s.stateManager.scanner = some keyManagers) {index : Nat}
    (hindex : index < keyManagers.length) :
    ∃ accountId, stream.activeAccountIds[index]? = some accountId ∧
      Recognises start s index accountId := by
  have hforall := hn.scanner keyManagers hscanner
  have hlength := hforall.length_eq
  have hids := hn.stream stream rest hopen
  have hkey := (List.forall₂_iff_get.mp hforall).2 index (by omega) hindex
  refine ⟨s.stateManager.activeAccountIds.get ⟨index, by omega⟩, ?_, ?_, keyManagers,
    keyManagers.get ⟨index, hindex⟩, hscanner, ?_, hkey⟩
  · rw [← hids]
    simp
  · simp
  · simp

/-- A batch is credited as it should be if and only if every index that it uses stands for the same
    account among all accounts as among the active ones. -/
theorem creditedOnce_iff (co : ScanCoordinator) (db : Db) (targets : List AccountSyncTarget)
    (as : List ScanAction) (s s' : ScanLoop) (stream : UtxoStream) (blocks : List BlockScanResult)
    (tasks : List (Timestamp × Option Nat)) (hids : (targets.map (·.accountId)).Nodup)
    (hrun : Transition.run (step co) (co.unifiedScanLoop db targets) as = some s)
    (hbatch : ReceivedBatch s stream blocks)
    (htasks : Transition.run (step co) s (tasks.map (fun t => .processBlocks t.1 t.2)) = some s')
    (hend : s'.phase.betweenBatches = true) :
    CreditedOnce targets s blocks (outputsSince s.db.outputs.seq s'.db.outputs) ↔
      ∀ b ∈ blocks, ∀ w ∈ b.walletOutputs,
        (targets.map (·.accountId))[w.2.2]? = stream.activeAccountIds[w.2.2]? := by
  have hkeep : ∀ t a t', (t.Regular ∧ t.Following ∧ Numbered targets t) →
      t.step co a = some t' → t'.Regular ∧ t'.Following ∧ Numbered targets t' :=
    fun t a t' ht hstep => ⟨regular_step ht.1 hstep, following_step ht.1 ht.2.1 hstep,
      numbered_step ht.1 ht.2.2 hstep⟩
  have hstart : (co.unifiedScanLoop db targets).Regular ∧
      (co.unifiedScanLoop db targets).Following ∧
      Numbered targets (co.unifiedScanLoop db targets) := by
    refine ⟨trivial, .of_closed hids rfl, rfl, ?_, (fun _ h => (by cases h)), nofun⟩
    simp [ScanCoordinator.unifiedScanLoop, BlockProcessor.withEventSender, List.map_map,
      Function.comp_def]
  obtain ⟨hreg, hf, hn⟩ := Transition.inv_of_steps hkeep hstart hrun
  have hopen : s.phase.openStream = some (stream, stream.activeAccountIds) := by
    rw [hbatch.phase]
    rfl
  have hactive := (hf.nodup stream _ hopen).1
  have hnone : Crediting s.db.outputs.seq stream blocks [] stream.activeAccountIds s :=
    ⟨rfl, Nat.le_refl _, outputsSince_self _, hbatch.above⟩
  have hcrediting := crediting_run tasks hreg hf hbatch.phase hnone htasks hend
  have hrecorded : outputsSince s.db.outputs.seq s'.db.outputs =
      stream.activeAccountIds.flatMap (fun accountId => creditedOutputs s'.blockProcessor accountId
        (blocks.flatMap (·.walletOutputs))) := by
    rw [hcrediting.recorded]
    simp only [flatMap_creditedOutputs]
  have hprocessor := (Transition.inv_of_steps hkeep ⟨hreg, hf, hn⟩ htasks).2.2.processor
  -- what is recorded with the hash of an output is recorded for that output
  have hmem : ∀ b ∈ blocks, ∀ w ∈ b.walletOutputs, ∀ accountId,
      (accountId, w.1) ∈ outputsSince s.db.outputs.seq s'.db.outputs ↔
        accountId ∈ stream.activeAccountIds ∧
          (targets.map (·.accountId))[w.2.2]? = some accountId := by
    intro b hb w hw accountId
    have hw' : w ∈ blocks.flatMap (·.walletOutputs) := List.mem_flatMap.mpr ⟨b, hb, hw⟩
    rw [hrecorded, mem_flatMap_creditedOutputs, hprocessor]
    refine and_congr_right (fun _ => ⟨?_, fun hidx => ⟨w, hw', hidx, rfl⟩⟩)
    rintro ⟨v, hv, hidx, hhash⟩
    rwa [List.inj_on_of_nodup_map hbatch.distinct hv hw' hhash] at hidx
  constructor
  · intro hcredited b hb w hw
    obtain ⟨accountId, hrecognises, hcount, -⟩ := hcredited b hb w hw
    have hin := (hmem b hb w hw accountId).mp (List.count_pos_iff.mp (by omega))
    rw [hin.2, ← hn.stream stream _ hopen, hrecognises.1]
  · intro hagree b hb w hw
    obtain ⟨keyManagers, hscanner, hindex⟩ := hbatch.recognised b hb w hw
    obtain ⟨accountId, hat, hrecognises⟩ := hn.recognises hopen hscanner hindex
    have hidx := (hagree b hb w hw).trans hat
    refine ⟨accountId, hrecognises, ?_, fun a ha => ?_⟩
    · refine List.count_eq_one_of_mem ?_
        ((hmem b hb w hw accountId).mpr ⟨List.mem_of_getElem? hat, hidx⟩)
      rw [hrecorded]
      exact nodup_flatMap_creditedOutputs hactive hbatch.distinct
    · have ha' := ((hmem b hb w hw a).mp ha).2
      rw [hidx] at ha'
      exact (Option.some.inj ha').symm

end ScanLoop

/-! ## One block

Block 0, with an output that the first key manager of the scanner has recognised. -/

def ownedBlock : BlockScanResult where
  height := 0
  blockHash := 100
  walletOutputs := [(900, ⟨900, 50, false, false, [], {}⟩, 0)]
  inputs := []
  minedTimestamp := 0

def receiveOwnedBlock : List ScanAction :=
  [.iterate false (.ok 9), .receive (some (.ok [ownedBlock]))]

/-- The loop has received the block for account 2, which is the only active one. -/
theorem receivedBatch_ownedBlock {s : ScanLoop} {stream : UtxoStream}
    (hphase : s.phase = .processBatch stream [ownedBlock] [2])
    (hactive : stream.activeAccountIds = [2]) (hscanner : s.stateManager.scanner = some [8])
    (habove : ∀ target ∈ s.targets, target.accountId = 2 → target.nextBlockToScan = 0) :
    ScanLoop.ReceivedBatch s stream [ownedBlock] where
  phase := by rw [hphase, hactive]
  recognised b hb w hw := by
    have hindex : ∀ b ∈ [ownedBlock], ∀ w ∈ b.walletOutputs, w.2.2 < 1 := by decide
    exact ⟨[8], hscanner, hindex b hb w hw⟩
  distinct := by decide
  above target htarget hin b _ := by
    rw [hactive, List.mem_singleton] at hin
    rw [habove target htarget hin]
    exact Nat.zero_le _

/-- One account, and its output recorded. -/
theorem creditedOnce_ownedBlock :
    ∃ s s', Transition.run (ScanLoop.step (plainCoordinator .full))
        ((plainCoordinator .full).unifiedScanLoop Db.empty [⟨2, 8, 0⟩]) receiveOwnedBlock = some s ∧
      Transition.run (ScanLoop.step (plainCoordinator .full)) s [.processBlocks 0 none] = some s' ∧
      ScanLoop.CreditedOnce [⟨2, 8, 0⟩] s [ownedBlock]
        (outputsSince s.db.outputs.seq s'.db.outputs) := by
  let stream : UtxoStream := ⟨[2], ⟨0, none, 25⟩, none, 1, []⟩
  obtain ⟨s, hrun, hs⟩ := Transition.exists_run_of_any
    (f := ScanLoop.step (plainCoordinator .full))
    (s := (plainCoordinator .full).unifiedScanLoop Db.empty [⟨2, 8, 0⟩]) (l := receiveOwnedBlock)
    (q := fun s => decide (s.phase = .processBatch stream [ownedBlock] [2] ∧
      s.stateManager.scanner = some [8] ∧ s.targets = [⟨2, 8, 0⟩]) &&
      (Transition.run (ScanLoop.step (plainCoordinator .full)) s [.processBlocks 0 none]).any
        (·.phase.betweenBatches)) (by decide +kernel)
  obtain ⟨hstate, htask⟩ := Bool.and_eq_true_iff.mp hs
  obtain ⟨hphase, hscanner, htargets⟩ := of_decide_eq_true hstate
  obtain ⟨s', htask, hend⟩ := Transition.exists_run_of_any htask
  refine ⟨s, s', hrun, htask, ?_⟩
  refine (ScanLoop.creditedOnce_iff (plainCoordinator .full) Db.empty [⟨2, 8, 0⟩]
    receiveOwnedBlock s s' stream [ownedBlock] [(0, none)] (by decide) hrun ?_ htask hend).mpr
    (by decide)
  exact receivedBatch_ownedBlock hphase rfl hscanner (by rw [htargets]; decide)

/-- With an account before it that waits at block 5, account 2 is the first of the active accounts
    and the second of all: its output is recorded for nobody. -/
theorem ownedBlock_notCredited :
    ∃ s s', Transition.run (ScanLoop.step (plainCoordinator .full))
        ((plainCoordinator .full).unifiedScanLoop Db.empty [⟨1, 7, 5⟩, ⟨2, 8, 0⟩])
        receiveOwnedBlock = some s ∧
      (∃ stream, ScanLoop.ReceivedBatch s stream [ownedBlock]) ∧
      Transition.run (ScanLoop.step (plainCoordinator .full)) s [.processBlocks 0 none] = some s' ∧
      s'.phase.betweenBatches = true ∧
      outputsSince s.db.outputs.seq s'.db.outputs = [] ∧
      ¬ScanLoop.CreditedOnce [⟨1, 7, 5⟩, ⟨2, 8, 0⟩] s [ownedBlock]
        (outputsSince s.db.outputs.seq s'.db.outputs) := by
  let stream : UtxoStream := ⟨[2], ⟨0, some 4, 5⟩, some 5, 1, []⟩
  obtain ⟨s, hrun, hs⟩ := Transition.exists_run_of_any
    (f := ScanLoop.step (plainCoordinator .full))
    (s := (plainCoordinator .full).unifiedScanLoop Db.empty [⟨1, 7, 5⟩, ⟨2, 8, 0⟩])
    (l := receiveOwnedBlock)
    (q := fun s => decide (s.phase = .processBatch stream [ownedBlock] [2] ∧
      s.stateManager.scanner = some [8] ∧ s.targets = [⟨1, 7, 5⟩, ⟨2, 8, 0⟩]) &&
      (Transition.run (ScanLoop.step (plainCoordinator .full)) s [.processBlocks 0 none]).any
        (fun s' => s'.phase.betweenBatches &&
          decide (outputsSince s.db.outputs.seq s'.db.outputs = []))) (by decide +kernel)
  obtain ⟨hstate, htask⟩ := Bool.and_eq_true_iff.mp hs
  obtain ⟨hphase, hscanner, htargets⟩ := of_decide_eq_true hstate
  obtain ⟨s', htask, hend⟩ := Transition.exists_run_of_any htask
  obtain ⟨hend, hnone⟩ := Bool.and_eq_true_iff.mp hend
  have hnone := of_decide_eq_true hnone
  refine ⟨s, s', hrun, ⟨stream, receivedBatch_ownedBlock hphase rfl hscanner ?_⟩, htask, hend,
    hnone, fun hcredited => ?_⟩
  · rw [htargets]
    decide
  · obtain ⟨accountId, -, hcount, -⟩ := hcredited ownedBlock (by decide)
      (900, ⟨900, 50, false, false, [], {}⟩, 0) (by decide)
    rw [hnone] at hcount
    cases hcount

end MinotariWallet
