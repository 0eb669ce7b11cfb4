import MinotariWallet.Scan.Coordinator
import MinotariWallet.Scan.ForkPoint

set_option autoImplicit false

/-! # The steps of the scan loop

What a step of `unified_scan_loop` can do, one constructor for each branch. The guard before
`monitor_if_needed` reads the counter that the same iteration has just moved on, so it is never
passed: there is no constructor for it. -/

namespace MinotariWallet

open Sql Exec

/-! ## Targets -/

section Targets

variable {targets : List AccountSyncTarget} {accountId : AccountId} {height : Nat}
  {target : AccountSyncTarget}

theorem findTarget_some (h : findTarget targets accountId = some target) :
    target ∈ targets ∧ target.accountId = accountId := by
  have hid := List.find?_some h
  exact ⟨List.mem_of_find?_eq_some h, by simpa using hid⟩

/-- What does not read the counters does not see one change. -/
theorem map_setNextBlockToScan {τ : Type} {f : AccountSyncTarget → τ}
    (hf : ∀ t n, f { t with nextBlockToScan := n } = f t) :
    (setNextBlockToScan targets accountId height).map f = targets.map f := by
  induction targets with
  | nil => rfl
  | cons target rest ih =>
      unfold setNextBlockToScan
      split
      · rw [List.map_cons, hf, List.map_cons]
      · rw [List.map_cons, ih, List.map_cons]

theorem map_accountId_setNextBlockToScan :
    (setNextBlockToScan targets accountId height).map (·.accountId) =
      targets.map (·.accountId) :=
  map_setNextBlockToScan (fun _ _ => rfl)

theorem findTarget_setNextBlockToScan :
    findTarget (setNextBlockToScan targets accountId height) accountId =
      (findTarget targets accountId).map (fun target => { target with nextBlockToScan := height }) := by
  induction targets with
  | nil => rfl
  | cons target rest ih =>
      unfold setNextBlockToScan
      by_cases hid : target.accountId = accountId
      · simp [findTarget, hid]
      · rw [if_neg hid]
        have hskip : ∀ ts : List AccountSyncTarget,
            findTarget (target :: ts) accountId = findTarget ts accountId := by
          intro ts
          simp [findTarget, hid]
        rw [hskip, hskip, ih]

/-- With one target for an account, its counter changes and no other. -/
theorem mem_setNextBlockToScan (hnodup : (targets.map (·.accountId)).Nodup) :
    target ∈ setNextBlockToScan targets accountId height ↔
      (target ∈ targets ∧ target.accountId ≠ accountId) ∨
        ∃ t ∈ targets, t.accountId = accountId ∧ target = { t with nextBlockToScan := height } := by
  induction targets with
  | nil => simp [setNextBlockToScan]
  | cons t rest ih =>
      rw [List.map_cons, List.nodup_cons] at hnodup
      unfold setNextBlockToScan
      by_cases hid : t.accountId = accountId
      · have hrest : ∀ u ∈ rest, u.accountId ≠ accountId := by
          intro u hu he
          exact hnodup.1 (List.mem_map.mpr ⟨u, hu, he.trans hid.symm⟩)
        rw [if_pos hid]
        simp only [List.mem_cons]
        constructor
        · rintro (rfl | hu)
          · exact Or.inr ⟨t, Or.inl rfl, hid, rfl⟩
          · exact Or.inl ⟨Or.inr hu, hrest target hu⟩
        · rintro (⟨rfl | hu, hne⟩ | ⟨u, rfl | hu, hu', rfl⟩)
          · exact absurd hid hne
          · exact Or.inr hu
          · exact Or.inl rfl
          · exact absurd hu' (hrest u hu)
      · rw [if_neg hid, List.mem_cons, ih hnodup.2]
        simp only [List.mem_cons]
        constructor
        · rintro (rfl | ⟨hu, hne⟩ | ⟨u, hu, hu', rfl⟩)
          · exact Or.inl ⟨Or.inl rfl, hid⟩
          · exact Or.inl ⟨Or.inr hu, hne⟩
          · exact Or.inr ⟨u, Or.inr hu, hu', rfl⟩
        · rintro (⟨rfl | hu, hne⟩ | ⟨u, rfl | hu, hu', rfl⟩)
          · exact Or.inl rfl
          · exact Or.inr (Or.inl ⟨hu, hne⟩)
          · exact absurd hu' hid
          · exact Or.inr (Or.inr ⟨u, hu, hu', rfl⟩)

theorem mem_activeAccountIds :
    accountId ∈ activeAccountIds targets height ↔
      ∃ t ∈ targets, t.nextBlockToScan = height ∧ t.accountId = accountId := by
  simp [activeAccountIds, and_assoc]

theorem globalNextBlock_le (h : target ∈ targets) :
    globalNextBlock targets ≤ target.nextBlockToScan := by
  unfold globalNextBlock
  have hmem : target.nextBlockToScan ∈ targets.map (·.nextBlockToScan) := List.mem_map_of_mem h
  cases hmin : (targets.map (·.nextBlockToScan)).min? with
  | none => simp
  | some m => exact (List.min?_eq_some_iff.mp hmin).2 _ hmem

end Targets

/-! ## Preparing an account -/

section Prepare

variable {co : ScanCoordinator} {scanningOffset : Nat} {now : Timestamp} {account : AccountRow}
  {node : PrepareAnswers} {c c' : Conn Db}

/-- A prepared account resumes where the check says, or where its birthday is. -/
theorem prepareTarget_check {target : AccountSyncTarget}
    (h : co.prepareTarget scanningOffset now account node c = .ok target c') :
    target.accountId = account.id ∧ ∃ result,
      ReorgCheck node.getHeaderByHeight account.id now c.store result c'.store ∧
        (result.resumeHeight = 0 ∨ target.nextBlockToScan = result.resumeHeight) := by
  unfold ScanCoordinator.prepareTarget at h
  obtain ⟨result, c₁, hrun, h⟩ := bind_ok.mp h
  have hcheck := handleReorgs_ok hrun
  split at h
  · next hzero =>
      obtain ⟨nextBlock, c₂, hnext, h⟩ := bind_ok.mp h
      obtain ⟨rfl, rfl⟩ := pure_ok.mp h
      obtain ⟨-, rfl⟩ := lift_ok hnext
      exact ⟨rfl, result, hcheck, Or.inl hzero⟩
  · obtain ⟨nextBlock, c₂, hnext, h⟩ := bind_ok.mp h
    obtain ⟨rfl, rfl⟩ := pure_ok.mp h
    obtain ⟨rfl, rfl⟩ := pure_ok.mp hnext
    exact ⟨rfl, result, hcheck, Or.inr rfl⟩

/-- An account whose preparation fails was not checked, or the node did not say where its birthday
    is. -/
theorem prepareTarget_error {e : WalletDbError}
    (h : co.prepareTarget scanningOffset now account node c = .error e c') :
    c'.store = c.store ∨ ∃ result,
      ReorgCheck node.getHeaderByHeight account.id now c.store result c'.store := by
  unfold ScanCoordinator.prepareTarget at h
  rcases bind_error.mp h with hrun | ⟨result, c₁, hrun, h⟩
  · exact Or.inl (handleReorgs_error hrun)
  refine Or.inr ⟨result, ?_⟩
  have hcheck := handleReorgs_ok hrun
  split at h
  · rcases bind_error.mp h with hnext | ⟨nextBlock, c₂, -, h⟩
    · rwa [lift_error hnext]
    · cases h
  · rcases bind_error.mp h with hnext | ⟨nextBlock, c₂, -, h⟩
    · cases hnext
    · cases h

end Prepare

/-! ## Steps -/

namespace ScanLoop

/-- What a step of the loop does. -/
inductive LoopStep (co : ScanCoordinator) (s : ScanLoop) : ScanAction → ScanLoop → Prop where
  | failed {a : ScanAction} (e : ScanError) : LoopStep co s a { s with phase := .failed e }
  | cancelled (tip : Except String Nat) (hphase : s.phase = .iterate) :
      LoopStep co s (.iterate true tip) { s with phase := .returned true }
  | opened {stateManager : ScannerStateManager} {stream : UtxoStream} (tipHeight : Nat)
      (hphase : s.phase = .iterate) (hopen : s.openStream co = .ok (stateManager, stream)) :
      LoopStep co s (.iterate false (.ok tipHeight))
        { s with stateManager, tipHeight, phase := .receive stream }
  /-- The stream ends without the end marker, and is opened again. -/
  | reopened {stream : UtxoStream} (hphase : s.phase = .receive stream) :
      LoopStep co s (.receive none) { s with phase := .iterate }
  | limited {stream : UtxoStream} (response : Option (Except String (List BlockScanResult)))
      (hphase : s.phase = .receive stream) :
      LoopStep co s (.receive response) { s with phase := .returned true }
  | finished {stream : UtxoStream} (hphase : s.phase = .receive stream)
      (hmode : co.mode ≠ .continuous) :
      LoopStep co s (.receive (some (.ok []))) { s with phase := .returned false }
  | polled {stream : UtxoStream} (hphase : s.phase = .receive stream)
      (hmode : co.mode = .continuous) :
      LoopStep co s (.receive (some (.ok [])))
        { s with
          targets := s.targets.map (fun target =>
            { target with nextBlockToScan := target.nextBlockToScan - 1 })
          phase := .wait }
  | received {stream : UtxoStream} {blocks : List BlockScanResult} (hne : blocks ≠ [])
      (hphase : s.phase = .receive stream) :
      LoopStep co s (.receive (some (.ok blocks)))
        (s.nextAccount co (stream.delivered blocks) blocks stream.activeAccountIds)
  | processed {stream : UtxoStream} {blocks : List BlockScanResult} {last : BlockScanResult}
      {accountId : AccountId} {accountIds : List AccountId} {target : AccountSyncTarget}
      {now : Timestamp} {budget : Option Nat} {events : List WalletEvent} {c : Conn Db}
      (hphase : s.phase = .processBatch stream blocks (accountId :: accountIds))
      (hlast : blocks.getLast? = some last) (htarget : findTarget s.targets accountId = some target)
      (hrun : processBlocks co.env s.blockProcessor now blocks accountId target.nextBlockToScan
        ⟨s.db, budget⟩ = .ok events c) :
      LoopStep co s (.processBlocks now budget)
        ({ s with
          db := c.store
          targets := setNextBlockToScan s.targets accountId (last.height + 1)
          scanned := s.scanned ++ processedHeights blocks accountId target.nextBlockToScan
          }.nextAccount co stream blocks accountIds)
  | onChain {stream : Option UtxoStream} {accountId : AccountId} {accountIds : List AccountId}
      {getHeaderByHeight : HeaderSource} {now : Timestamp} (budget : Option Nat)
      {result : ReorgResult} {db : Db}
      (hphase : s.phase = .checkReorgs (accountId :: accountIds) stream)
      (hcheck : ReorgCheck getHeaderByHeight accountId now s.db result db)
      (hnone : result.reorgInformation = none) :
      LoopStep co s (.handleReorgs getHeaderByHeight now budget)
        { s with db, phase := checkGlobalReorgs accountIds stream }
  | rolledBack {stream : Option UtxoStream} {accountId : AccountId} {accountIds : List AccountId}
      {getHeaderByHeight : HeaderSource} {now : Timestamp} (budget : Option Nat)
      {result : ReorgResult} {db : Db}
      (hphase : s.phase = .checkReorgs (accountId :: accountIds) stream)
      (hcheck : ReorgCheck getHeaderByHeight accountId now s.db result db)
      (hsome : result.reorgInformation.isSome = true) :
      LoopStep co s (.handleReorgs getHeaderByHeight now budget)
        { s with
          db
          targets := setNextBlockToScan s.targets accountId result.resumeHeight
          scanned := s.scanned.filter (fun p => p.1 != accountId || p.2 < result.resumeHeight)
          phase := checkGlobalReorgs accountIds (stream.map (fun stream =>
            { stream with rolledBack := accountId :: stream.rolledBack })) }
  | woke (hphase : s.phase = .wait) :
      LoopStep co s (.wake true) { s with phase := .iterate }
  | wokeToCheck (hphase : s.phase = .wait) :
      LoopStep co s (.wake false)
        { s with phase := checkGlobalReorgs (s.targets.map (·.accountId)) none }

/-- No batch that is being processed is empty, and the loop is past the guard nowhere. -/
def Regular (s : ScanLoop) : Prop :=
  match s.phase with
  | .processBatch _ blocks _ => blocks ≠ []
  | .monitor _ _ _ _ _ => False
  | .prune _ _ _ _ _ => False
  | _ => True

variable {co : ScanCoordinator} {s s' : ScanLoop} {a : ScanAction}

theorem batchProcessed_eq (co : ScanCoordinator) (s : ScanLoop) (stream : UtxoStream)
    {blocks : List BlockScanResult} (accountIds : List AccountId) {accountId : AccountId}
    {last : BlockScanResult} {target : AccountSyncTarget} (hlast : blocks.getLast? = some last)
    (htarget : findTarget s.targets accountId = some target) :
    s.batchProcessed co stream blocks accountIds accountId =
      { s with targets := setNextBlockToScan s.targets accountId (last.height + 1) }.nextAccount co
        stream blocks accountIds := by
  unfold batchProcessed
  simp only [hlast, findTarget_setNextBlockToScan, htarget, Option.map_some]
  -- the guard compares the last height with the counter that is past it
  rw [if_neg (Nat.not_succ_le_self last.height)]

/-- What comes after a stream that was closed. -/
theorem streamEnded_closed (co : ScanCoordinator) (s : ScanLoop) :
    s.streamEnded co false = { s with phase := .iterate } ∨
      s.streamEnded co false = { s with phase := .returned true } := by
  unfold streamEnded
  cases co.mode with
  | partialScan maxBlocks =>
      by_cases hmax : maxBlocks ≤ s.totalScannedGlobally
      · exact Or.inr (if_pos hmax)
      · exact Or.inl (if_neg hmax)
  | full => exact Or.inl rfl
  | continuous => exact Or.inl rfl

/-- What comes after the end marker. -/
theorem streamEnded_empty (co : ScanCoordinator) (s : ScanLoop) :
    s.streamEnded co true = { s with phase := .returned true } ∨
      (co.mode ≠ .continuous ∧ s.streamEnded co true = { s with phase := .returned false }) ∨
      (co.mode = .continuous ∧ s.streamEnded co true = { s with
        targets := s.targets.map (fun target =>
          { target with nextBlockToScan := target.nextBlockToScan - 1 })
        phase := .wait }) := by
  unfold streamEnded
  cases co.mode with
  | partialScan maxBlocks =>
      by_cases hmax : maxBlocks ≤ s.totalScannedGlobally
      · exact Or.inl (if_pos hmax)
      · exact Or.inr (Or.inl ⟨nofun, if_neg hmax⟩)
  | full => exact Or.inr (Or.inl ⟨nofun, rfl⟩)
  | continuous => exact Or.inr (Or.inr ⟨rfl, rfl⟩)

theorem step_cases (hreg : s.Regular) (h : s.step co a = some s') : LoopStep co s a s' := by
  cases a with
  | iterate cancelled tip =>
      simp only [step] at h
      split at h
      · next hphase =>
          split at h
          · next hcancelled =>
              cases h
              subst hcancelled
              exact .cancelled tip hphase
          · next hcancelled =>
              obtain rfl : cancelled = false := by simpa using hcancelled
              split at h
              · cases h; exact .failed _
              · cases h; exact .failed _
              · next stateManager stream tipHeight hopen =>
                  cases h
                  exact .opened tipHeight hphase hopen
      · cases h
  | receive response =>
      simp only [step] at h
      split at h
      · next stream hphase =>
          split at h
          · cases h
            rcases streamEnded_closed co s with hs | hs <;> rw [hs]
            · exact .reopened hphase
            · exact .limited none hphase
          · cases h; exact .failed _
          · cases h
            rcases streamEnded_empty co s with
              hs | ⟨hmode, hs⟩ | ⟨hmode, hs⟩ <;> rw [hs]
            · exact .limited _ hphase
            · exact .finished hphase hmode
            · exact .polled hphase hmode
          · next blocks hne =>
              cases h
              exact .received (fun hnil => hne (by rw [hnil])) hphase
      · cases h
  | processBlocks now budget =>
      simp only [step] at h
      split at h
      · next stream blocks accountId accountIds hphase =>
          split at h
          · cases h; exact .failed _
          · next target htarget =>
              have hne : blocks ≠ [] := by simpa [Regular, hphase] using hreg
              split at h
              · next events c hrun =>
                  cases h
                  have hlast := List.getLast?_eq_some_getLast hne
                  have hdone := batchProcessed_eq co { s with
                    db := c.store
                    scanned := s.scanned ++
                      processedHeights blocks accountId target.nextBlockToScan }
                    stream accountIds hlast htarget
                  rw [hdone]
                  exact .processed hphase hlast htarget hrun
              · next e c hrun =>
                  cases h
                  rw [inTransaction_error hrun]
                  exact .failed _
      · cases h
  | monitorIfNeeded result =>
      simp only [step] at h
      split at h
      · next hphase => simp [Regular, hphase] at hreg
      · cases h
  | pruneTips budget =>
      simp only [step] at h
      split at h
      · next hphase => simp [Regular, hphase] at hreg
      · cases h
  | handleReorgs getHeaderByHeight now budget =>
      simp only [step] at h
      split at h
      · next accountId accountIds stream hphase =>
          split at h
          · next result c hrun =>
              cases h
              have hcheck := handleReorgs_ok hrun
              unfold checkedAccount
              cases hinfo : result.reorgInformation with
              | none =>
                  simp only [Option.isSome_none, Bool.false_eq_true, if_false]
                  exact .onChain budget hphase hcheck hinfo
              | some info =>
                  have hsome : result.reorgInformation.isSome = true := by rw [hinfo]; rfl
                  simp only [Option.isSome_some, if_true]
                  exact .rolledBack budget hphase hcheck hsome
          · next e c hrun =>
              cases h
              rw [handleReorgs_error hrun]
              exact .failed _
      · cases h
  | wake cancelled =>
      simp only [step] at h
      split at h
      · next hphase =>
          split at h
          · next hcancelled =>
              cases h
              subst hcancelled
              exact .woke hphase
          · next hcancelled =>
              obtain rfl : cancelled = false := by simpa using hcancelled
              cases h
              exact .wokeToCheck hphase
      · cases h

theorem checkGlobalReorgs_phase (accountIds : List AccountId) (stream : Option UtxoStream) :
    checkGlobalReorgs accountIds stream = stream.elim .iterate .receive ∨
      checkGlobalReorgs accountIds stream = .checkReorgs accountIds stream := by
  unfold checkGlobalReorgs
  split
  · exact Or.inl rfl
  · exact Or.inr rfl

/-- Where the loop goes after a batch, or one account of it. -/
theorem nextAccount_phase (co : ScanCoordinator) (s : ScanLoop) (stream : UtxoStream) (blocks : List BlockScanResult)
    (accountIds : List AccountId) :
    (accountIds ≠ [] ∧ (s.nextAccount co stream blocks accountIds).phase =
        .processBatch stream blocks accountIds) ∨
      (accountIds = [] ∧
        ((s.nextAccount co stream blocks accountIds).phase = .receive stream ∨
          (s.nextAccount co stream blocks accountIds).phase =
            .checkReorgs (s.targets.map (·.accountId)) (some stream))) := by
  unfold nextAccount
  split
  · dsimp only
    split
    · exact Or.inr ⟨rfl, checkGlobalReorgs_phase _ (some stream)⟩
    · exact Or.inr ⟨rfl, Or.inl rfl⟩
  · next hne => exact Or.inl ⟨fun hnil => hne hnil, rfl⟩

theorem nextAccount_fields (co : ScanCoordinator) (s : ScanLoop) (stream : UtxoStream) (blocks : List BlockScanResult)
    (accountIds : List AccountId) :
    (s.nextAccount co stream blocks accountIds).db = s.db ∧
      (s.nextAccount co stream blocks accountIds).targets = s.targets ∧
      (s.nextAccount co stream blocks accountIds).scanned = s.scanned ∧
      (s.nextAccount co stream blocks accountIds).blockProcessor = s.blockProcessor ∧
      (s.nextAccount co stream blocks accountIds).stateManager = s.stateManager := by
  unfold nextAccount
  split
  · dsimp only
    split <;> exact ⟨rfl, rfl, rfl, rfl, rfl⟩
  · exact ⟨rfl, rfl, rfl, rfl, rfl⟩

theorem regular_step (hreg : s.Regular) (h : s.step co a = some s') : s'.Regular := by
  have hnext : ∀ (t : ScanLoop) (stream : UtxoStream) {blocks : List BlockScanResult}
      (accountIds : List AccountId), blocks ≠ [] →
        (t.nextAccount co stream blocks accountIds).Regular := by
    intro t stream blocks accountIds hne
    unfold Regular
    rcases nextAccount_phase co t stream blocks accountIds with
      ⟨-, hp⟩ | ⟨-, hp | hp⟩ <;> rw [hp]
    · exact hne
    · trivial
    · trivial
  have hcheck : ∀ (t : ScanLoop) (accountIds : List AccountId) (stream : Option UtxoStream),
      t.phase = checkGlobalReorgs accountIds stream → t.Regular := by
    intro t accountIds stream ht
    unfold Regular
    rw [ht]
    rcases checkGlobalReorgs_phase accountIds stream with hp | hp <;> rw [hp]
    · cases stream <;> trivial
    · trivial
  cases step_cases hreg h with
  | received hne hphase => exact hnext _ _ _ hne
  | processed hphase hlast htarget hrun =>
      refine hnext _ _ _ (fun hnil => ?_)
      rw [hnil] at hlast
      cases hlast
  | onChain budget hphase hrun hnone => exact hcheck _ _ _ rfl
  | rolledBack budget hphase hrun hsome => exact hcheck _ _ _ rfl
  | wokeToCheck hphase => exact hcheck _ _ _ rfl
  | _ => trivial

end ScanLoop

end MinotariWallet
