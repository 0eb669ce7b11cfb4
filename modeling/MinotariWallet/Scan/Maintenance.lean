import MinotariWallet.Scan.LoopSteps
import MinotariWallet.Ledger.Machine

set_option autoImplicit false

/-! # Maintenance after a batch

After each batch that an account has processed, the loop should call `monitor_if_needed` and
`prune_tips` for it. Both stand behind a guard that compares the last height of the batch with
`next_block_to_scan`, and the line before the guard has moved that past the last height: neither is
ever called. -/

namespace MinotariWallet

open Sql Exec

/-- What an observer of the loop sees of a batch. -/
inductive BatchEvent where
  | received
  /-- `process_blocks` has returned, for a target that was at `nextBlockToScan`. -/
  | processed (accountId : AccountId) (nextBlockToScan lastHeight : Nat)
  | monitored (accountId : AccountId) (height : Nat)
  | pruned (accountId : AccountId) (height : Nat)
deriving DecidableEq

/-- The loop is not in the middle of a batch, and has not failed. -/
def LoopPhase.betweenBatches : LoopPhase → Bool
  | .processBatch _ _ _ => false
  | .monitor _ _ _ _ _ => false
  | .prune _ _ _ _ _ => false
  | .failed _ => false
  | _ => true

def LoopPhase.hasFailed : LoopPhase → Bool
  | .failed _ => true
  | _ => false

namespace ScanLoop

/-- What a step from `s` to `s'` shows. -/
def batchEvents (s : ScanLoop) (a : ScanAction) (s' : ScanLoop) : List BatchEvent :=
  match s.phase, a with
  | .receive _, .receive (some (.ok (_ :: _))) => [.received]
  | .processBatch _ blocks (accountId :: _), .processBlocks _ _ =>
    match findTarget s.targets accountId, blocks.getLast? with
    | some target, some last =>
      if s'.phase.hasFailed then [] else [.processed accountId target.nextBlockToScan last.height]
    | _, _ => []
  | .monitor _ _ _ accountId lastHeight, .monitorIfNeeded _ => [.monitored accountId lastHeight]
  | .prune _ _ _ accountId lastHeight, .pruneTips _ => [.pruned accountId lastHeight]
  | _, _ => []

def batchTrace (co : ScanCoordinator) (s : ScanLoop) (as : List ScanAction) : List BatchEvent :=
  Transition.trace (step co) batchEvents s as

/-- What `prune_tips` at the height leaves of the recorded blocks of the account. -/
def PrunedTo (db : Db) (accountId : AccountId) (height : Nat) : Prop :=
  ∀ r ∈ db.scannedTipBlocks.rows, r.accountId = accountId → 0 ≤ r.height →
    r.height < (height - Db.recentBlocksToKeep : Nat) → r.height % Db.oldBlocksPruningInterval = 0

/-- In the run the loop is in `s'` past a batch that the account has processed, a batch that ended at
    or above its next block; `after` is what was seen since `process_blocks` returned. -/
structure BatchOver (co : ScanCoordinator) (s : ScanLoop) (as : List ScanAction) (s' : ScanLoop)
    (accountId : AccountId) (lastHeight : Nat) (after : List BatchEvent) : Prop where
  seen : ∃ bs before nextBlockToScan, bs <+: as ∧ Transition.run (step co) s bs = some s' ∧
    nextBlockToScan ≤ lastHeight ∧
    s.batchTrace co bs = before ++ .processed accountId nextBlockToScan lastHeight :: after
  last : .received ∉ after
  ended : s'.phase.betweenBatches = true

/-- In the run every such batch was followed by one `monitor_if_needed` and one `prune_tips` at its
    last height, and the recorded blocks of the account are pruned. -/
def Maintained (co : ScanCoordinator) (s : ScanLoop) (as : List ScanAction) : Prop :=
  ∀ s' accountId lastHeight after, BatchOver co s as s' accountId lastHeight after →
    after.count (.monitored accountId lastHeight) = 1 ∧
      after.count (.pruned accountId lastHeight) = 1 ∧ PrunedTo s'.db accountId lastHeight

instance (db : Db) (accountId : AccountId) (height : Nat) :
    Decidable (PrunedTo db accountId height) := by
  unfold PrunedTo; infer_instance

variable {co : ScanCoordinator} {db : Db} {targets : List AccountSyncTarget}
  {as : List ScanAction}

/-- The loop calls neither: it is past the guard in no reachable state. -/
theorem not_maintenance_mem_batchTrace {e : BatchEvent}
    (he : e ∈ (co.unifiedScanLoop db targets).batchTrace co as) :
    (∀ accountId height, e ≠ .monitored accountId height) ∧
      (∀ accountId height, e ≠ .pruned accountId height) := by
  refine Transition.forall_mem_trace (I := Regular)
    (K := fun e => (∀ accountId height, e ≠ .monitored accountId height) ∧
      (∀ accountId height, e ≠ .pruned accountId height))
    (fun _ _ _ hreg hstep => regular_step hreg hstep) (fun s a s' hreg hstep e he => ?_)
    (show (co.unifiedScanLoop db targets).Regular from trivial) e he
  unfold batchEvents at he
  split at he
  · simp only [List.mem_singleton] at he
    subst he
    exact ⟨nofun, nofun⟩
  · split at he
    · split at he
      · cases he
      · simp only [List.mem_singleton] at he
        subst he
        exact ⟨nofun, nofun⟩
    · cases he
  · next hphase => simp [Regular, hphase] at hreg
  · next hphase => simp [Regular, hphase] at hreg
  · cases he

/-- A run is maintained only when there is nothing to maintain in it. -/
theorem maintained_iff (co : ScanCoordinator) (db : Db) (targets : List AccountSyncTarget)
    (as : List ScanAction) :
    Maintained co (co.unifiedScanLoop db targets) as ↔
      ∀ s' accountId lastHeight after,
        ¬BatchOver co (co.unifiedScanLoop db targets) as s' accountId lastHeight after := by
  constructor
  · intro h s' accountId lastHeight after hover
    have hcount := (h s' accountId lastHeight after hover).1
    have hmonitored : BatchEvent.monitored accountId lastHeight ∈ after :=
      List.count_pos_iff.mp (by omega)
    obtain ⟨bs, before, nextBlockToScan, -, -, -, hsplit⟩ := hover.seen
    have htrace : BatchEvent.monitored accountId lastHeight ∈
        (co.unifiedScanLoop db targets).batchTrace co bs := by
      rw [hsplit]
      exact List.mem_append_right _ (List.mem_cons_of_mem _ hmonitored)
    exact (not_maintenance_mem_batchTrace htrace).1 _ _ rfl
  · intro h s' accountId lastHeight after hover
    exact absurd hover (h s' accountId lastHeight after)

end ScanLoop

/-- A coordinator for one account with nothing in the blocks it scans. -/
def plainCoordinator (mode : ScanMode) : ScanCoordinator where
  env := plainEnv
  birthdayGenesis := 0
  requiredConfirmations := 3
  webhookConfig := none
  reorgCheckInterval := 1000
  batchSize := 25
  mode := mode

/-- A block in which the wallet finds nothing. -/
def emptyBlock (height : Nat) : BlockScanResult := ⟨height, 100 + height, [], [], 0⟩

/-- An account that has recorded blocks 1 and 1499, and resumes at 1500. -/
def resumedAt1500 : ScanLoop :=
  (plainCoordinator .full).unifiedScanLoop
    ((Db.empty.insertScannedTipBlock 1 1 101).insertScannedTipBlock 1 1499 1599) [⟨1, 7, 1500⟩]

/-- Block 1500 is scanned, and the loop is back at the stream. -/
def batch1500 : List ScanAction :=
  [.iterate false (.ok 1500), .receive (some (.ok [emptyBlock 1500])), .processBlocks 0 none]

/-- Neither was called, and block 1 is still recorded. -/
theorem batch1500_notMaintained :
    (∃ s', ScanLoop.BatchOver (plainCoordinator .full) resumedAt1500 batch1500 s' 1 1500 [] ∧
        ¬ScanLoop.PrunedTo s'.db 1 1500) ∧
      ¬ScanLoop.Maintained (plainCoordinator .full) resumedAt1500 batch1500 := by
  obtain ⟨s', hrun, hs'⟩ := Transition.exists_run_of_any
    (f := ScanLoop.step (plainCoordinator .full)) (s := resumedAt1500) (l := batch1500)
    (q := fun s' => s'.phase.betweenBatches && decide (¬ScanLoop.PrunedTo s'.db 1 1500))
    (by decide +kernel)
  simp only [Bool.and_eq_true, decide_eq_true_eq] at hs'
  have hover : ScanLoop.BatchOver (plainCoordinator .full) resumedAt1500 batch1500 s' 1 1500 [] :=
    ⟨⟨batch1500, [.received], 1500, List.prefix_refl _, hrun, Nat.le_refl _, by decide +kernel⟩,
      List.not_mem_nil, hs'.1⟩
  refine ⟨⟨s', hover, hs'.2⟩, fun h => ?_⟩
  cases (h s' 1 1500 [] hover).1

end MinotariWallet
