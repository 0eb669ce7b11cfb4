import MinotariWallet.Scan.Gapless

set_option autoImplicit false

/-! # The limit of a partial scan

`end_height` is the last height that a stream delivers, and the loop computes it as
`global_next_block + max_blocks - total_scanned_globally`, one block past the limit. -/

namespace MinotariWallet

open Sql Exec

/-- How many heights a stream is asked for. -/
def ScanConfig.blocksAsked (config : ScanConfig) : Option Nat :=
  config.endHeight.map (fun endHeight => endHeight + 1 - config.startHeight)

/-- The last height that a scanner delivers for the stream, on a chain with the tip. -/
def ScanConfig.lastDelivered (config : ScanConfig) (tip : Nat) : Nat :=
  min (config.endHeight.getD tip) tip

theorem getScannerAndConfig_config {manager manager' : ScannerStateManager}
    {accountIds : List AccountId} {start batchSize : Nat} {endHeight : Option Nat}
    {targets : List AccountSyncTarget} {config : ScanConfig}
    (h : manager.getScannerAndConfig accountIds start endHeight batchSize targets =
      .ok (manager', config)) : config = ⟨start, endHeight, batchSize⟩ := by
  unfold ScannerStateManager.getScannerAndConfig at h
  split at h
  · cases hkeys : activeKeyManagers targets accountIds with
    | error e =>
        rw [hkeys] at h
        cases h
    | ok keys =>
        rw [hkeys] at h
        cases h
        rfl
  · cases h
    rfl

/-- What the loop computes for a stream, where `scan_blocks` has not refused the range. -/
theorem openStream_config {co : ScanCoordinator} {s : ScanLoop}
    {stateManager : ScannerStateManager} {stream : UtxoStream}
    (h : s.openStream co = .ok (stateManager, stream)) :
    stream.config.startHeight = globalNextBlock s.targets ∧
      stream.config.endHeight = scanEndHeight co.mode s.targets s.totalScannedGlobally ∧
      ∀ endHeight ∈ stream.config.endHeight, stream.config.startHeight ≤ endHeight := by
  unfold ScanLoop.openStream at h
  simp only [bind, Except.bind] at h
  split at h
  · cases h
  · next r hr =>
      have hconfig := getScannerAndConfig_config hr
      split at h
      · cases h
      · next hrange =>
          cases h
          simp only [hconfig] at hrange ⊢
          refine ⟨trivial, trivial, fun endHeight hend => ?_⟩
          rw [Option.mem_def.mp hend] at hrange
          simpa using hrange

namespace ScanLoop

variable {co : ScanCoordinator} {s s' : ScanLoop} {a : ScanAction} {maxBlocks tip : Nat}

/-! ## What a stream is asked for -/

/-- The stream that the next iteration opens is asked for no more blocks than are left. -/
def AsksWithinBudget (co : ScanCoordinator) (maxBlocks : Nat) (s : ScanLoop) : Prop :=
  ∀ r, s.openStream co = .ok r →
    ∀ asked ∈ r.2.config.blocksAsked, asked ≤ maxBlocks - s.totalScannedGlobally

/-- Another account waits within the blocks that are left, or no height is past the limit. -/
def HorizonWithinBudget (maxBlocks : Nat) (s : ScanLoop) : Prop :=
  2 ^ 64 ≤ globalNextBlock s.targets + maxBlocks ∨
    ∃ horizon, nextHorizonHeight s.targets (globalNextBlock s.targets) = some horizon ∧
      horizon ≤ globalNextBlock s.targets + (maxBlocks - s.totalScannedGlobally)

theorem blocksAsked_of_open {r : ScannerStateManager × UtxoStream}
    (hmode : co.mode = .partialScan maxBlocks) (hopen : s.openStream co = .ok r) :
    r.2.config.blocksAsked = (scanEndHeight (.partialScan maxBlocks) s.targets
      s.totalScannedGlobally).map (fun endHeight => endHeight + 1 - globalNextBlock s.targets) := by
  obtain ⟨hstart, hend, -⟩ := openStream_config hopen
  rw [ScanConfig.blocksAsked, hstart, hend, hmode]

/-- The stream of an iteration is within the budget if and only if the horizon is. -/
theorem asksWithinBudget_iff (hmode : co.mode = .partialScan maxBlocks)
    (hmax : maxBlocks < 2 ^ 64) (htotal : s.totalScannedGlobally ≤ maxBlocks)
    {r : ScannerStateManager × UtxoStream} (hopen : s.openStream co = .ok r) :
    AsksWithinBudget co maxBlocks s ↔ HorizonWithinBudget maxBlocks s := by
  have hasks : AsksWithinBudget co maxBlocks s ↔ ∀ endHeight ∈ scanEndHeight
      (.partialScan maxBlocks) s.targets s.totalScannedGlobally,
        endHeight + 1 - globalNextBlock s.targets ≤ maxBlocks - s.totalScannedGlobally := by
    unfold AsksWithinBudget
    constructor
    · intro h endHeight hend
      refine h r hopen _ ?_
      rw [blocksAsked_of_open hmode hopen, Option.mem_def.mp hend]
      rfl
    · intro h r' hopen' asked hasked
      rw [blocksAsked_of_open hmode hopen'] at hasked
      obtain ⟨endHeight, hend, rfl⟩ := Option.map_eq_some_iff.mp hasked
      exact h endHeight hend
  rw [hasks, HorizonWithinBudget, scanEndHeight]
  generalize globalNextBlock s.targets = start
  cases hhorizon : nextHorizonHeight s.targets start with
  | none =>
      simp only [Option.map_none, Option.mem_some_iff, forall_eq', saturatingAdd]
      constructor
      · intro h
        refine Or.inl ?_
        by_contra hlt
        rw [Nat.min_eq_left (by omega)] at h
        omega
      · rintro (h | ⟨horizon, hnone, -⟩)
        · omega
        · cases hnone
  | some horizon =>
      have hlt : start < horizon := by
        obtain ⟨hmem, -⟩ := List.min?_eq_some_iff.mp hhorizon
        simpa using (List.mem_filter.mp hmem).2
      simp only [Option.map_some, Option.mem_some_iff, forall_eq', saturatingAdd,
        Option.some.injEq, exists_eq_left']
      omega

/-! ## Where a partial scan is -/

/-- A stream that has ended is opened again only below the limit. -/
theorem step_receive_end (hmode : co.mode = .partialScan maxBlocks) {stream : UtxoStream}
    {response : Option (Except String (List BlockScanResult))}
    (hend : response = none ∨ response = some (.ok [])) (hphase : s.phase = .receive stream)
    (h : s.step co (.receive response) = some s') :
    (maxBlocks ≤ s.totalScannedGlobally ∧ s' = { s with phase := .returned true }) ∨
      (s.totalScannedGlobally < maxBlocks ∧ (s' = { s with phase := .returned false } ∨
        s' = { s with phase := .iterate })) := by
  by_cases hmax : maxBlocks ≤ s.totalScannedGlobally
  · rcases hend with rfl | rfl <;>
      simp only [step, hphase, streamEnded, hmode, if_pos hmax, Option.some.injEq] at h <;>
      exact Or.inl ⟨hmax, h.symm⟩
  · have hlt : s.totalScannedGlobally < maxBlocks := Nat.lt_of_not_le hmax
    rcases hend with rfl | rfl <;>
      simp [step, hphase, streamEnded, hmode, if_neg hmax] at h
    · exact Or.inr ⟨hlt, Or.inr h.symm⟩
    · exact Or.inr ⟨hlt, Or.inl h.symm⟩

/-- A partial scan does not poll, and is at the head of the loop only within its limit. -/
def WithinLimit (maxBlocks : Nat) (s : ScanLoop) : Prop :=
  match s.phase with
  | .iterate => s.totalScannedGlobally ≤ maxBlocks
  | .checkReorgs _ none => False
  | .wait => False
  | _ => True

theorem withinLimit_checkGlobalReorgs {accountIds : List AccountId} {stream : UtxoStream}
    (h : s.phase = checkGlobalReorgs accountIds (some stream)) : WithinLimit maxBlocks s := by
  unfold WithinLimit
  rcases checkGlobalReorgs_phase accountIds (some stream) with hp | hp <;> rw [h, hp] <;> trivial

theorem withinLimit_nextAccount {stream : UtxoStream} {blocks : List BlockScanResult}
    {accountIds : List AccountId} :
    WithinLimit maxBlocks (s.nextAccount co stream blocks accountIds) := by
  unfold WithinLimit
  rcases nextAccount_phase co s stream blocks accountIds with ⟨-, hp⟩ | ⟨-, hp | hp⟩ <;>
    rw [hp] <;> trivial

theorem withinLimit_step (hmode : co.mode = .partialScan maxBlocks) (hreg : s.Regular)
    (hs : WithinLimit maxBlocks s) (h : s.step co a = some s') : WithinLimit maxBlocks s' := by
  cases step_cases hreg h with
  | failed e => trivial
  | cancelled tip hphase => trivial
  | opened tipHeight hphase hopen => trivial
  | reopened hphase =>
      rcases step_receive_end hmode (Or.inl rfl) hphase h with ⟨-, heq⟩ | ⟨hlt, -⟩
      · exact absurd (congrArg ScanLoop.phase heq) nofun
      · exact Nat.le_of_lt hlt
  | limited response hphase => trivial
  | finished hphase hcontinuous => trivial
  | polled hphase hcontinuous => exact absurd (hmode.symm.trans hcontinuous) nofun
  | received hne hphase => exact withinLimit_nextAccount
  | processed hphase hlast htarget hrun => exact withinLimit_nextAccount
  | onChain budget hphase hcheck hnone =>
      rename_i stream accountId accountIds getHeaderByHeight now result db
      cases stream with
      | none =>
          rw [WithinLimit, hphase] at hs
          exact hs.elim
      | some stream => exact withinLimit_checkGlobalReorgs rfl
  | rolledBack budget hphase hcheck hsome =>
      rename_i stream accountId accountIds getHeaderByHeight now result db
      cases stream with
      | none =>
          rw [WithinLimit, hphase] at hs
          exact hs.elim
      | some stream => exact withinLimit_checkGlobalReorgs rfl
  | woke hphase =>
      rw [WithinLimit, hphase] at hs
      exact hs.elim
  | wokeToCheck hphase =>
      rw [WithinLimit, hphase] at hs
      exact hs.elim

/-! ## One account -/

/-- Whatever the loop meets on a chain that does not change and ends at the tip: a stream delivers
    exactly the blocks it is asked for, in order, and no check finds a reorg. The scan is not
    cancelled. -/
def DeliversUpTo (co : ScanCoordinator) (tip : Nat) (s : ScanLoop) (a : ScanAction) : Prop :=
  match s.phase, a with
  | .iterate, .iterate cancelled _ => cancelled = false
  | .receive stream, .receive none => stream.config.lastDelivered tip < stream.position
  | .receive stream, .receive (some (.ok [])) => stream.config.lastDelivered tip < stream.position
  | .receive stream, .receive (some (.ok blocks)) => Consecutive stream.position blocks ∧
      stream.position + blocks.length ≤ stream.config.lastDelivered tip + 1
  | .checkReorgs (accountId :: _) _, .handleReorgs getHeaderByHeight now budget =>
    match handleReorgs getHeaderByHeight accountId co.webhookConfig now ⟨s.db, budget⟩ with
    | .ok result _ => result.reorgInformation = none
    | .error _ _ => True
  | _, _ => True

instance (co : ScanCoordinator) (tip : Nat) (s : ScanLoop) (a : ScanAction) :
    Decidable (DeliversUpTo co tip s a) := by
  unfold DeliversUpTo
  split <;> first | infer_instance | (split <;> infer_instance)

/-- The stream of the only account, with the block at the height to come next. -/
structure StreamsFor (target : AccountSyncTarget) (maxBlocks tip next : Nat)
    (stream : UtxoStream) : Prop where
  active : stream.activeAccountIds = [target.accountId]
  position : stream.position = next
  /-- The stream is the first one, or there is nothing left to deliver. -/
  last : tip < next ∨
    stream.config.lastDelivered tip = min (target.nextBlockToScan + maxBlocks) tip

/-- How many blocks a scan from the target is done with, where it is. -/
def Progress (target : AccountSyncTarget) (maxBlocks tip : Nat) (s : ScanLoop) (count : Nat) :
    Prop :=
  match s.phase with
  | .iterate => s.totalScannedGlobally = count ∧ (count = 0 ∨ tip < target.nextBlockToScan + count)
  | .receive stream => s.totalScannedGlobally = count ∧
      StreamsFor target maxBlocks tip (target.nextBlockToScan + count) stream
  | .checkReorgs _ (some stream) => s.totalScannedGlobally = count ∧
      StreamsFor target maxBlocks tip (target.nextBlockToScan + count) stream
  | .processBatch stream blocks accountIds => s.totalScannedGlobally = count ∧
      accountIds = [target.accountId] ∧ Consecutive (target.nextBlockToScan + count) blocks ∧
      target.nextBlockToScan + count + blocks.length ≤
        min (target.nextBlockToScan + maxBlocks) tip + 1 ∧
      StreamsFor target maxBlocks tip (target.nextBlockToScan + count + blocks.length) stream
  | .returned _ => count = min (tip + 1 - target.nextBlockToScan) (maxBlocks + 1)
  | .failed _ => True
  | _ => False

/-- The only account is where it has scanned to, one block past the limit at most. -/
structure Counted (target : AccountSyncTarget) (maxBlocks tip : Nat) (s : ScanLoop) : Prop where
  targets : s.targets =
    [{ target with nextBlockToScan := target.nextBlockToScan + s.scanned.length }]
  le : s.scanned.length ≤ min (tip + 1 - target.nextBlockToScan) (maxBlocks + 1)
  progress : Progress target maxBlocks tip s s.scanned.length

variable {target : AccountSyncTarget}

/-- With one account there is no horizon: a stream may deliver up to the limit, and one more. -/
theorem streamsFor_of_open (hmode : co.mode = .partialScan maxBlocks) (htip : tip < 2 ^ 64)
    (hs : Counted target maxBlocks tip s) (hphase : s.phase = .iterate)
    {stateManager : ScannerStateManager} {stream : UtxoStream}
    (hopen : s.openStream co = .ok (stateManager, stream)) :
    StreamsFor target maxBlocks tip (target.nextBlockToScan + s.scanned.length) stream := by
  obtain ⟨hactive, -, hposition, -⟩ := openStream_ok hopen
  obtain ⟨-, hend, -⟩ := openStream_config hopen
  have hstart : globalNextBlock s.targets = target.nextBlockToScan + s.scanned.length := by
    rw [hs.targets]
    rfl
  obtain ⟨htotal, hcount⟩ : s.totalScannedGlobally = s.scanned.length ∧
      (s.scanned.length = 0 ∨ tip < target.nextBlockToScan + s.scanned.length) := by
    simpa only [Progress, hphase] using hs.progress
  refine ⟨?_, hposition.trans hstart, ?_⟩
  · rw [hactive, hstart, hs.targets]
    simp [activeAccountIds]
  rcases hcount with hzero | hpast
  · refine Or.inr ?_
    have hhorizon : nextHorizonHeight s.targets (globalNextBlock s.targets) = none := by
      rw [hstart, hs.targets]
      simp [nextHorizonHeight]
    rw [hmode, scanEndHeight, hhorizon, hstart, htotal, hzero] at hend
    rw [ScanConfig.lastDelivered, hend]
    simp only [Option.map_none, Option.getD_some, saturatingAdd]
    omega
  · exact Or.inl hpast

theorem progress_checkGlobalReorgs {accountIds : List AccountId} {stream : UtxoStream} {count : Nat}
    (hphase : s.phase = checkGlobalReorgs accountIds (some stream))
    (htotal : s.totalScannedGlobally = count)
    (hstream : StreamsFor target maxBlocks tip (target.nextBlockToScan + count) stream) :
    Progress target maxBlocks tip s count := by
  unfold Progress
  rcases checkGlobalReorgs_phase accountIds (some stream) with hp | hp <;> rw [hphase, hp] <;>
    exact ⟨htotal, hstream⟩

/-- Past the batch of the only account. -/
theorem progress_nextAccount {stream : UtxoStream} {blocks : List BlockScanResult} {count : Nat}
    (htotal : s.totalScannedGlobally + blocks.length = count)
    (hstream : StreamsFor target maxBlocks tip (target.nextBlockToScan + count) stream) :
    Progress target maxBlocks tip (s.nextAccount co stream blocks []) count := by
  unfold nextAccount
  dsimp only
  split
  · exact progress_checkGlobalReorgs rfl htotal hstream
  · exact ⟨htotal, hstream⟩

/-- A stream that has ended has delivered all that is left, up to one block past the limit. -/
theorem StreamsFor.ended {stream : UtxoStream} {count : Nat}
    (h : StreamsFor target maxBlocks tip (target.nextBlockToScan + count) stream)
    (hle : count ≤ min (tip + 1 - target.nextBlockToScan) (maxBlocks + 1))
    (hend : stream.config.lastDelivered tip < stream.position) :
    count = min (tip + 1 - target.nextBlockToScan) (maxBlocks + 1) := by
  rw [h.position] at hend
  rcases h.last with hpast | hlast
  · omega
  · rw [hlast] at hend
    omega

/-- The streams that follow the first have nothing to deliver. -/
theorem counted_end (hmode : co.mode = .partialScan maxBlocks) (hs : Counted target maxBlocks tip s)
    {stream : UtxoStream} {response : Option (Except String (List BlockScanResult))}
    (hresponse : response = none ∨ response = some (.ok [])) (hphase : s.phase = .receive stream)
    (hend : stream.config.lastDelivered tip < stream.position)
    (h : s.step co (.receive response) = some s') : Counted target maxBlocks tip s' := by
  obtain ⟨htotal, hstream⟩ : s.totalScannedGlobally = s.scanned.length ∧
      StreamsFor target maxBlocks tip (target.nextBlockToScan + s.scanned.length) stream := by
    simpa only [Progress, hphase] using hs.progress
  have hcount := hstream.ended hs.le hend
  rcases step_receive_end hmode hresponse hphase h with ⟨-, rfl⟩ | ⟨hlt, rfl | rfl⟩
  · exact ⟨hs.targets, hs.le, hcount⟩
  · exact ⟨hs.targets, hs.le, hcount⟩
  · refine ⟨hs.targets, hs.le, htotal, Or.inr ?_⟩
    show tip < target.nextBlockToScan + s.scanned.length
    omega

theorem processedHeights_of_consecutive {blocks : List BlockScanResult} {next : Nat}
    (h : Consecutive next blocks) (accountId : AccountId) :
    (processedHeights blocks accountId next).length = blocks.length := by
  have hall : blocks.filter (fun block => next ≤ block.height) = blocks := by
    refine List.filter_eq_self.mpr (fun block hblock => ?_)
    have hmem : block.height ∈ blocks.map (·.height) := List.mem_map_of_mem hblock
    rw [h, List.mem_range'_1] at hmem
    exact decide_eq_true hmem.1
  rw [processedHeights, hall, List.length_map]

theorem getLast_of_consecutive {blocks : List BlockScanResult} {next : Nat} {last : BlockScanResult}
    (h : Consecutive next blocks) (hlast : blocks.getLast? = some last) :
    last.height + 1 = next + blocks.length := by
  obtain ⟨-, hmem⟩ := h.mem_iff hlast
  have hend : (blocks.map (·.height)).getLast? = some last.height := by
    rw [List.getLast?_map, hlast]
    rfl
  rw [h, List.getLast?_range'] at hend
  split at hend
  · cases hend
  · simp only [Option.some.injEq] at hend
    omega

theorem counted_receive (hmode : co.mode = .partialScan maxBlocks)
    (hs : Counted target maxBlocks tip s) {stream : UtxoStream}
    {response : Option (Except String (List BlockScanResult))} (hphase : s.phase = .receive stream)
    (hdeliver : DeliversUpTo co tip s (.receive response))
    (h : s.step co (.receive response) = some s') : Counted target maxBlocks tip s' := by
  unfold DeliversUpTo at hdeliver
  rw [hphase] at hdeliver
  match response with
  | none => exact counted_end hmode hs (Or.inl rfl) hphase hdeliver h
  | some (.ok []) => exact counted_end hmode hs (Or.inr rfl) hphase hdeliver h
  | some (.error message) =>
      simp only [step, hphase, Option.some.injEq] at h
      subst h
      exact ⟨hs.targets, hs.le, trivial⟩
  | some (.ok (block :: blocks)) =>
      obtain ⟨htotal, hstream⟩ : s.totalScannedGlobally = s.scanned.length ∧
          StreamsFor target maxBlocks tip (target.nextBlockToScan + s.scanned.length) stream := by
        simpa only [Progress, hphase] using hs.progress
      obtain ⟨hconsecutive, hle⟩ := hdeliver
      rw [hstream.position] at hconsecutive hle
      simp only [step, hphase, hstream.active, nextAccount, Option.some.injEq] at h
      subst h
      have htip : stream.config.lastDelivered tip ≤ tip := Nat.min_le_right _ _
      refine ⟨hs.targets, hs.le, htotal, rfl, hconsecutive, ?_, hstream.active, ?_, ?_⟩
      · simp only [List.length_cons] at hle ⊢
        rcases hstream.last with hpast | hlast
        · omega
        · rwa [hlast] at hle
      · have hlast := List.getLast?_eq_some_getLast (List.cons_ne_nil block blocks)
        rw [UtxoStream.delivered, hlast]
        exact getLast_of_consecutive hconsecutive hlast
      · exact hstream.last.imp_left (fun hpast => Nat.lt_add_right _ hpast)

theorem counted_handleReorgs (hs : Counted target maxBlocks tip s)
    {accountId : AccountId} {accountIds : List AccountId} {stream : UtxoStream}
    {getHeaderByHeight : HeaderSource} {now : Timestamp} {budget : Option Nat}
    (hphase : s.phase = .checkReorgs (accountId :: accountIds) (some stream))
    (hdeliver : DeliversUpTo co tip s (.handleReorgs getHeaderByHeight now budget))
    (h : s.step co (.handleReorgs getHeaderByHeight now budget) = some s') :
    Counted target maxBlocks tip s' := by
  unfold DeliversUpTo at hdeliver
  rw [hphase] at hdeliver
  obtain ⟨htotal, hstream⟩ : s.totalScannedGlobally = s.scanned.length ∧
      StreamsFor target maxBlocks tip (target.nextBlockToScan + s.scanned.length) stream := by
    simpa only [Progress, hphase] using hs.progress
  simp only [step, hphase] at h
  split at h
  · next result c hrun =>
      simp only [hrun] at hdeliver
      simp only [checkedAccount, hdeliver, Option.isSome_none, Bool.false_eq_true, if_false,
        Option.some.injEq] at h
      subst h
      exact ⟨hs.targets, hs.le, progress_checkGlobalReorgs rfl htotal hstream⟩
  · cases h
    exact ⟨hs.targets, hs.le, trivial⟩

theorem counted_step (hmode : co.mode = .partialScan maxBlocks) (htip : tip < 2 ^ 64)
    (hreg : s.Regular) (hs : Counted target maxBlocks tip s) (hdeliver : DeliversUpTo co tip s a)
    (h : s.step co a = some s') : Counted target maxBlocks tip s' := by
  have hp := hs.progress
  have hchecked : ∀ {stream : Option UtxoStream} {accountIds : List AccountId},
      s.phase = .checkReorgs accountIds stream → ∃ st, stream = some st := by
    intro stream accountIds hphase
    cases stream with
    | none => simp only [Progress, hphase] at hp
    | some st => exact ⟨st, rfl⟩
  cases step_cases hreg h with
  | failed e => exact ⟨hs.targets, hs.le, trivial⟩
  | cancelled tip hphase =>
      unfold DeliversUpTo at hdeliver
      rw [hphase] at hdeliver
      cases hdeliver
  | opened tipHeight hphase hopen =>
      simp only [Progress, hphase] at hp
      exact ⟨hs.targets, hs.le, hp.1, streamsFor_of_open hmode htip hs hphase hopen⟩
  | reopened hphase => exact counted_receive hmode hs hphase hdeliver h
  | limited response hphase => exact counted_receive hmode hs hphase hdeliver h
  | finished hphase hmode' => exact counted_receive hmode hs hphase hdeliver h
  | polled hphase hmode' => exact absurd (hmode.symm.trans hmode') nofun
  | received hne hphase => exact counted_receive hmode hs hphase hdeliver h
  | processed hphase hlast htarget hrun =>
      rename_i stream blocks last accountId accountIds found now budget events c
      simp only [Progress, hphase, List.cons.injEq] at hp
      obtain ⟨htotal, ⟨rfl, rfl⟩, hconsecutive, hle, hstream⟩ := hp
      have hfound : found =
          { target with nextBlockToScan := target.nextBlockToScan + s.scanned.length } := by
        rw [hs.targets] at htarget
        simpa [findTarget] using htarget.symm
      have hheights := processedHeights_of_consecutive hconsecutive target.accountId
      have hnext := getLast_of_consecutive hconsecutive hlast
      have hcount : (s.scanned ++ processedHeights blocks target.accountId
          found.nextBlockToScan).length = s.scanned.length + blocks.length := by
        rw [List.length_append, hfound, hheights]
      refine ⟨?_, ?_, ?_⟩
      · rw [(nextAccount_fields _ _ _ _ _).2.1, (nextAccount_fields _ _ _ _ _).2.2.1, hcount,
          hs.targets]
        simp [setNextBlockToScan, hnext, Nat.add_assoc]
      · rw [(nextAccount_fields _ _ _ _ _).2.2.1, hcount]
        have := hs.le
        omega
      · rw [(nextAccount_fields _ _ _ _ _).2.2.1, hcount]
        refine progress_nextAccount ?_ ?_
        · exact congrArg (· + blocks.length) htotal
        · rwa [← Nat.add_assoc]
  | onChain budget hphase hcheck hnone =>
      obtain ⟨st, rfl⟩ := hchecked hphase
      exact counted_handleReorgs hs hphase hdeliver h
  | rolledBack budget hphase hcheck hsome =>
      obtain ⟨st, rfl⟩ := hchecked hphase
      exact counted_handleReorgs hs hphase hdeliver h
  | woke hphase => simp only [Progress, hphase] at hp
  | wokeToCheck hphase => simp only [Progress, hphase] at hp

/-! ## The limit -/

/-- The limit is kept: no more blocks are processed, and as many, if there are as many, by the time
    that the scan returns. -/
def KeepsLimit (maxBlocks remaining : Nat) (s : ScanLoop) : Prop :=
  s.scanned.length ≤ maxBlocks ∧ ∀ moreBlocks, s.phase = .returned moreBlocks →
    maxBlocks ≤ remaining → s.scanned.length = maxBlocks

/-- A state at the head of the loop opens a stream within the budget if and only if the horizon is
    within it. -/
def BudgetOfHorizon (co : ScanCoordinator) (maxBlocks : Nat) (s : ScanLoop) : Prop :=
  s.phase = .iterate → ∀ r, s.openStream co = .ok r →
    (AsksWithinBudget co maxBlocks s ↔ HorizonWithinBudget maxBlocks s)

theorem keepsLimit_of_counted {remaining : Nat} (hs : Counted target maxBlocks tip s)
    (hremaining : tip + 1 - target.nextBlockToScan = remaining) (hle : remaining ≤ maxBlocks) :
    KeepsLimit maxBlocks remaining s := by
  have hcount := hs.le
  refine ⟨by omega, fun moreBlocks hreturned hmax => ?_⟩
  have hp := hs.progress
  simp only [Progress, hreturned] at hp
  omega

theorem keepsLimit_returned_iff {moreBlocks : Bool} (hs : Counted target maxBlocks tip s)
    (hreturned : s.phase = .returned moreBlocks) :
    KeepsLimit maxBlocks (tip + 1 - target.nextBlockToScan) s ↔
      tip + 1 - target.nextBlockToScan ≤ maxBlocks := by
  refine ⟨fun h => ?_, fun hle => keepsLimit_of_counted hs rfl hle⟩
  have hp := hs.progress
  have hle := h.1
  simp only [Progress, hreturned] at hp
  omega

/-- A partial scan of one account that is let run to its end keeps its limit if and only if the
    chain ends within it, and goes one block past it otherwise; with several accounts, a stream is
    within the budget if and only if another account waits within it. -/
theorem partialScan_keepsLimit_iff (co : ScanCoordinator) (maxBlocks : Nat) (db : Db)
    (hmode : co.mode = .partialScan maxBlocks) (hmax : maxBlocks < 2 ^ 64) :
    (∀ targets as, Transition.Always (step co) (BudgetOfHorizon co maxBlocks)
        (co.unifiedScanLoop db targets) as) ∧
      ∀ (target : AccountSyncTarget) (tip : Nat) (as : List ScanAction), tip < 2 ^ 64 →
        Transition.Along (step co) (DeliversUpTo co tip) (co.unifiedScanLoop db [target]) as →
        (tip + 1 - target.nextBlockToScan ≤ maxBlocks → Transition.Always (step co)
          (KeepsLimit maxBlocks (tip + 1 - target.nextBlockToScan))
          (co.unifiedScanLoop db [target]) as) ∧
        ∀ s' moreBlocks, Transition.run (step co) (co.unifiedScanLoop db [target]) as = some s' →
          s'.phase = .returned moreBlocks →
          s'.scanned.length = min (tip + 1 - target.nextBlockToScan) (maxBlocks + 1) ∧
            (KeepsLimit maxBlocks (tip + 1 - target.nextBlockToScan) s' ↔
              tip + 1 - target.nextBlockToScan ≤ maxBlocks) := by
  constructor
  · intro targets as
    refine Transition.always_of_along (G := fun _ _ => True)
      (I := fun s => s.Regular ∧ WithinLimit maxBlocks s)
      (fun s a s' hs _ hstep => ⟨regular_step hs.1 hstep, withinLimit_step hmode hs.1 hs.2 hstep⟩)
      (fun s hs => ?_) ⟨trivial, Nat.zero_le _⟩ (Transition.along_of_forall _ (fun _ _ => trivial))
    intro hphase r hopen
    have hlimit := hs.2
    rw [WithinLimit, hphase] at hlimit
    exact asksWithinBudget_iff hmode hmax hlimit hopen
  intro target tip as htip hdeliver
  have hstep : ∀ s a s', (s.Regular ∧ Counted target maxBlocks tip s) → DeliversUpTo co tip s a →
      step co s a = some s' → s'.Regular ∧ Counted target maxBlocks tip s' :=
    fun s a s' hs hd h => ⟨regular_step hs.1 h, counted_step hmode htip hs.1 hs.2 hd h⟩
  have hstart : (co.unifiedScanLoop db [target]).Regular ∧
      Counted target maxBlocks tip (co.unifiedScanLoop db [target]) :=
    ⟨trivial, rfl, Nat.zero_le _, rfl, Or.inl rfl⟩
  refine ⟨fun hle => ?_, fun s' moreBlocks hrun hreturned => ?_⟩
  · exact Transition.always_of_along hstep
      (fun s hs => keepsLimit_of_counted hs.2 rfl hle) hstart hdeliver
  · obtain ⟨-, hs⟩ := Transition.inv_of_run hstep hstart hdeliver hrun
    have hp := hs.progress
    simp only [Progress, hreturned] at hp
    exact ⟨hp, keepsLimit_returned_iff hs hreturned⟩

end ScanLoop

/-- Two blocks with a limit of two, on a chain of two. -/
theorem partialScan_keepsLimit_twoBlocks :
    ∃ s', Transition.run (ScanLoop.step (plainCoordinator (.partialScan 2)))
        ((plainCoordinator (.partialScan 2)).unifiedScanLoop Db.empty [⟨1, 7, 0⟩])
        (scanTwoBlocks 1) = some s' ∧ s'.phase = .returned true ∧ s'.scanned.length = 2 ∧
      ScanLoop.KeepsLimit 2 2 s' := by
  obtain ⟨s', hrun, hs'⟩ := Transition.exists_run_of_any
    (f := ScanLoop.step (plainCoordinator (.partialScan 2)))
    (s := (plainCoordinator (.partialScan 2)).unifiedScanLoop Db.empty [⟨1, 7, 0⟩])
    (l := scanTwoBlocks 1) (q := fun s' => decide (s'.phase = .returned true))
    (by decide +kernel)
  have hreturned := of_decide_eq_true hs'
  obtain ⟨hcount, hlimit⟩ := ((ScanLoop.partialScan_keepsLimit_iff
    (plainCoordinator (.partialScan 2)) 2 Db.empty rfl (by decide)).2 ⟨1, 7, 0⟩ 1 (scanTwoBlocks 1)
      (by decide) (by decide +kernel)).2 s' true hrun hreturned
  exact ⟨s', hrun, hreturned, hcount, hlimit.mpr (Nat.le_refl 2)⟩

/-- Two blocks with a limit of one, on a chain of ten: the first stream is asked for blocks 0 and
    1. -/
theorem partialScan_overruns :
    (∃ s', Transition.run (ScanLoop.step (plainCoordinator (.partialScan 1)))
        ((plainCoordinator (.partialScan 1)).unifiedScanLoop Db.empty [⟨1, 7, 0⟩])
        (scanTwoBlocks 9) = some s' ∧ s'.phase = .returned true ∧ s'.scanned = [(1, 0), (1, 1)] ∧
      ¬ScanLoop.KeepsLimit 1 10 s') ∧
    Transition.Along (ScanLoop.step (plainCoordinator (.partialScan 1)))
      (ScanLoop.DeliversUpTo (plainCoordinator (.partialScan 1)) 9)
      ((plainCoordinator (.partialScan 1)).unifiedScanLoop Db.empty [⟨1, 7, 0⟩]) (scanTwoBlocks 9) ∧
    ¬ScanLoop.AsksWithinBudget (plainCoordinator (.partialScan 1)) 1
      ((plainCoordinator (.partialScan 1)).unifiedScanLoop Db.empty [⟨1, 7, 0⟩, ⟨2, 8, 5⟩]) := by
  obtain ⟨s', hrun, hs'⟩ := Transition.exists_run_of_any
    (f := ScanLoop.step (plainCoordinator (.partialScan 1)))
    (s := (plainCoordinator (.partialScan 1)).unifiedScanLoop Db.empty [⟨1, 7, 0⟩])
    (l := scanTwoBlocks 9)
    (q := fun s' => decide (s'.phase = .returned true ∧ s'.scanned = [(1, 0), (1, 1)]))
    (by decide +kernel)
  obtain ⟨hreturned, hscanned⟩ := of_decide_eq_true hs'
  refine ⟨⟨s', hrun, hreturned, hscanned, fun h => ?_⟩, by decide +kernel, fun h => ?_⟩
  · have hle := h.1
    rw [hscanned] at hle
    exact absurd hle (by decide)
  · exact absurd (h _ rfl 2 rfl) (by decide)

end MinotariWallet
