import MinotariWallet.Scan.Maintenance

set_option autoImplicit false

/-! # Where the targets stand while a stream is open

The counter of an active account is where the stream is, and the accounts that wait are at or above
the horizon. Only a reorg check between two batches takes an account out of step. -/

namespace MinotariWallet

open Sql Exec

section Opening

variable {co : ScanCoordinator} {s : ScanLoop} {stateManager : ScannerStateManager}
  {stream : UtxoStream}

/-- The stream that an iteration opens. -/
theorem openStream_ok (h : s.openStream co = .ok (stateManager, stream)) :
    stream.activeAccountIds = activeAccountIds s.targets (globalNextBlock s.targets) ∧
      stream.nextHorizonHeight = nextHorizonHeight s.targets (globalNextBlock s.targets) ∧
      stream.position = globalNextBlock s.targets ∧ stream.rolledBack = [] := by
  unfold ScanLoop.openStream at h
  simp only [bind, Except.bind] at h
  split at h
  · cases h
  · split at h
    · cases h
    · cases h
      exact ⟨rfl, rfl, rfl, rfl⟩

/-- The accounts that are not active wait at or above the horizon. -/
theorem nextHorizonHeight_le {targets : List AccountSyncTarget} {height : Nat}
    {target : AccountSyncTarget} (h : target ∈ targets) (hlt : height < target.nextBlockToScan) :
    ∃ horizon, nextHorizonHeight targets height = some horizon ∧
      horizon ≤ target.nextBlockToScan := by
  unfold nextHorizonHeight
  have hmem : target.nextBlockToScan ∈
      (targets.map (·.nextBlockToScan)).filter (height < ·) := by
    simp only [List.mem_filter, decide_eq_true_eq]
    exact ⟨List.mem_map_of_mem h, hlt⟩
  cases hmin : ((targets.map (·.nextBlockToScan)).filter (height < ·)).min? with
  | none =>
      rw [List.min?_eq_none_iff.mp hmin] at hmem
      cases hmem
  | some horizon => exact ⟨horizon, rfl, (List.min?_eq_some_iff.mp hmin).2 _ hmem⟩

end Opening

/-- Where a target stands while the stream is open and the accounts `rest` have the delivered batch
    still to process. -/
inductive Follows (stream : UtxoStream) (rest : List AccountId) (target : AccountSyncTarget) :
    Prop where
  | behind (h : target.accountId ∈ rest)
  | rolledBack (h : target.accountId ∈ stream.rolledBack)
  | active (h : target.accountId ∈ stream.activeAccountIds)
      (hnext : target.nextBlockToScan = stream.position)
  | waiting (h : target.accountId ∉ stream.activeAccountIds) (horizon : Nat)
      (hhorizon : stream.nextHorizonHeight = some horizon) (hle : horizon ≤ target.nextBlockToScan)

/-- The stream that is open, and the active accounts that have the delivered batch still to
    process. -/
def LoopPhase.openStream : LoopPhase → Option (UtxoStream × List AccountId)
  | .receive stream => some (stream, [])
  | .processBatch stream _ rest => some (stream, rest)
  | .checkReorgs _ (some stream) => some (stream, [])
  | _ => none

namespace ScanLoop

/-- Every target stands where it should, and a batch that is being processed ends where the stream
    is. -/
structure Following (s : ScanLoop) : Prop where
  ids : (s.targets.map (·.accountId)).Nodup
  follows : ∀ stream rest, s.phase.openStream = some (stream, rest) →
    ∀ target ∈ s.targets, Follows stream rest target
  nodup : ∀ stream rest, s.phase.openStream = some (stream, rest) →
    stream.activeAccountIds.Nodup ∧ rest.Nodup ∧ rest ⊆ stream.activeAccountIds
  batch : ∀ stream blocks rest, s.phase = .processBatch stream blocks rest →
    ∀ last, blocks.getLast? = some last → stream.position = last.height + 1

variable {co : ScanCoordinator} {s s' : ScanLoop} {a : ScanAction}

/-- With no stream open nothing is said about where the targets are. -/
theorem Following.of_closed (hids : (s.targets.map (·.accountId)).Nodup)
    (h : s.phase.openStream = none) : s.Following where
  ids := hids
  follows stream rest hopen := by rw [h] at hopen; cases hopen
  nodup stream rest hopen := by rw [h] at hopen; cases hopen
  batch stream blocks rest hphase := by rw [hphase] at h; cases h

theorem openStream_checkGlobalReorgs (accountIds : List AccountId) (stream : Option UtxoStream) :
    (checkGlobalReorgs accountIds stream).openStream = stream.map (fun stream => (stream, [])) := by
  rcases checkGlobalReorgs_phase accountIds stream with hp | hp <;> rw [hp] <;>
    cases stream <;> rfl

/-- In a reorg check, or back from it. -/
theorem Following.of_check {accountIds : List AccountId} {stream : Option UtxoStream}
    (hphase : s.phase = checkGlobalReorgs accountIds stream)
    (hids : (s.targets.map (·.accountId)).Nodup)
    (hnodup : ∀ st, stream = some st → st.activeAccountIds.Nodup)
    (hfollows : ∀ st, stream = some st → ∀ target ∈ s.targets, Follows st [] target) :
    s.Following where
  ids := hids
  follows st rest hopen := by
    rw [hphase, openStream_checkGlobalReorgs] at hopen
    obtain ⟨st', hsome, heq⟩ := Option.map_eq_some_iff.mp hopen
    cases heq
    exact hfollows st hsome
  nodup st rest hopen := by
    rw [hphase, openStream_checkGlobalReorgs] at hopen
    obtain ⟨st', hsome, heq⟩ := Option.map_eq_some_iff.mp hopen
    cases heq
    exact ⟨hnodup st hsome, List.nodup_nil, List.nil_subset _⟩
  batch st blocks rest hbatch := by
    rw [hphase] at hbatch
    rcases checkGlobalReorgs_phase accountIds stream with hp | hp <;> rw [hp] at hbatch
    · cases stream <;> cases hbatch
    · cases hbatch

/-- Past the batch or on to the next account, the targets stand as they stood. -/
theorem Following.nextAccount {t : ScanLoop} {stream : UtxoStream} {blocks : List BlockScanResult}
    {rest : List AccountId} (hids : (t.targets.map (·.accountId)).Nodup)
    (hfollows : ∀ target ∈ t.targets, Follows stream rest target)
    (hnodup : stream.activeAccountIds.Nodup ∧ rest.Nodup ∧ rest ⊆ stream.activeAccountIds)
    (hend : ∀ last, blocks.getLast? = some last → stream.position = last.height + 1) :
    (t.nextAccount co stream blocks rest).Following := by
  have htargets := (nextAccount_fields co t stream blocks rest).2.1
  refine ⟨by rw [htargets]; exact hids, ?_, ?_, ?_⟩
  · intro stream' rest' hopen
    rw [htargets]
    rcases nextAccount_phase co t stream blocks rest with
      ⟨-, hp⟩ | ⟨rfl, hp | hp⟩ <;> rw [hp] at hopen <;> cases hopen <;> exact hfollows
  · intro stream' rest' hopen
    rcases nextAccount_phase co t stream blocks rest with
      ⟨-, hp⟩ | ⟨rfl, hp | hp⟩ <;> rw [hp] at hopen <;> cases hopen <;> exact hnodup
  · intro stream' blocks' rest' hphase
    rcases nextAccount_phase co t stream blocks rest with
      ⟨-, hp⟩ | ⟨rfl, hp | hp⟩ <;> rw [hp] at hphase <;> cases hphase
    exact hend

theorem following_step (hreg : s.Regular) (hf : s.Following) (h : s.step co a = some s') :
    s'.Following := by
  cases step_cases hreg h with
  | failed e => exact .of_closed hf.ids rfl
  | cancelled tip hphase => exact .of_closed hf.ids rfl
  | opened tipHeight hphase hopen =>
      obtain ⟨hactive, hhorizon, hposition, -⟩ := openStream_ok hopen
      refine ⟨hf.ids, ?_, ?_, nofun⟩
      swap
      · intro stream' rest' heq
        cases heq
        refine ⟨?_, List.nodup_nil, List.nil_subset _⟩
        rw [hactive]
        exact hf.ids.sublist (List.filter_sublist.map _)
      intro stream' rest' heq target htarget
      cases heq
      replace htarget : target ∈ s.targets := htarget
      have hle := globalNextBlock_le htarget
      by_cases hnext : target.nextBlockToScan = globalNextBlock s.targets
      · refine .active ?_ (hnext.trans hposition.symm)
        rw [hactive]
        exact mem_activeAccountIds.mpr ⟨target, htarget, hnext, rfl⟩
      · obtain ⟨horizon, hsome, hle'⟩ := nextHorizonHeight_le htarget
          (show globalNextBlock s.targets < target.nextBlockToScan by omega)
        refine .waiting ?_ horizon (hhorizon.trans hsome) hle'
        rw [hactive]
        intro hmem
        obtain ⟨other, hother, hat, hid⟩ := mem_activeAccountIds.mp hmem
        obtain rfl := List.inj_on_of_nodup_map hf.ids hother htarget hid
        exact hnext hat
  | reopened hphase => exact .of_closed hf.ids rfl
  | limited response hphase => exact .of_closed hf.ids rfl
  | finished hphase hmode => exact .of_closed hf.ids rfl
  | polled hphase hmode =>
      refine .of_closed ?_ rfl
      simpa [List.map_map, Function.comp_def] using hf.ids
  | received hne hphase =>
      rename_i stream blocks
      have hactive := (hf.nodup stream [] (by rw [hphase]; rfl)).1
      refine Following.nextAccount hf.ids (fun target htarget => ?_)
        ⟨hactive, hactive, List.Subset.refl _⟩ ?_
      · by_cases hactive : target.accountId ∈ stream.activeAccountIds
        · exact .behind hactive
        · cases hf.follows stream [] (by rw [hphase]; rfl) target htarget with
          | behind h => cases h
          | rolledBack h => exact .rolledBack (by simp [UtxoStream.delivered, h, hactive])
          | active h hnext => exact absurd h hactive
          | waiting h horizon hhorizon hle => exact .waiting h horizon hhorizon hle
      · intro last hlast
        simp [UtxoStream.delivered, hlast]
  | processed hphase hlast htarget hrun =>
      rename_i stream blocks last accountId accountIds target now budget events c
      have hend := hf.batch _ _ _ hphase
      obtain ⟨hactive, hnodup, hsub⟩ := hf.nodup stream (accountId :: accountIds)
        (by rw [hphase]; rfl)
      obtain ⟨haccount, hrest⟩ := List.cons_subset.mp hsub
      refine Following.nextAccount ?_ (fun u hu => ?_) ⟨hactive, hnodup.tail, hrest⟩ hend
      · simpa only [map_accountId_setNextBlockToScan] using hf.ids
      · rcases (mem_setNextBlockToScan hf.ids).mp hu with ⟨hu, hne⟩ | ⟨v, hv, hid, rfl⟩
        · cases hf.follows stream (accountId :: accountIds) (by rw [hphase]; rfl) u hu with
          | behind h => exact .behind (List.mem_of_ne_of_mem hne h)
          | rolledBack h => exact .rolledBack h
          | active h hnext => exact .active h hnext
          | waiting h horizon hhorizon hle => exact .waiting h horizon hhorizon hle
        · exact .active (by simpa [hid] using haccount) (hend last hlast).symm
  | onChain budget hphase hcheck hnone =>
      rename_i stream accountId accountIds _ now result db
      refine .of_check rfl hf.ids
        (fun st hst => (hf.nodup st [] (by rw [hphase, hst]; rfl)).1) (fun st hst target htarget => ?_)
      exact hf.follows st [] (by rw [hphase, hst]; rfl) target htarget
  | rolledBack budget hphase hcheck hsome =>
      rename_i stream accountId accountIds _ now result db
      refine .of_check rfl (by simpa only [map_accountId_setNextBlockToScan] using hf.ids)
        (fun st' hst' => ?_) (fun st' hst' u hu => ?_)
      · obtain ⟨st, hst, rfl⟩ := Option.map_eq_some_iff.mp hst'
        exact (hf.nodup st [] (by rw [hphase, hst]; rfl)).1
      obtain ⟨st, hst, rfl⟩ := Option.map_eq_some_iff.mp hst'
      rcases (mem_setNextBlockToScan hf.ids).mp hu with ⟨hu, hne⟩ | ⟨v, hv, hid, rfl⟩
      · cases hf.follows st [] (by rw [hphase, hst]; rfl) u hu with
        | behind h => cases h
        | rolledBack h => exact .rolledBack (List.mem_cons_of_mem _ h)
        | active h hnext => exact .active h hnext
        | waiting h horizon hhorizon hle => exact .waiting h horizon hhorizon hle
      · exact .rolledBack (by simp [hid])
  | woke hphase => exact .of_closed hf.ids rfl
  | wokeToCheck hphase => exact .of_check rfl hf.ids (fun st hst => by cases hst) (fun st hst => by cases hst)

/-! ## Completion

`Ok((_, false))` should mean that every account has reached the tip. The end marker means only that
the stream of the active accounts has ended. -/

/-- An end marker comes when the stream has delivered the blocks up to the tip, no other account
    waited at or below the tip when it was opened, and what a reorg check has set back since is past
    the tip. -/
def EndsPastTip (s : ScanLoop) (a : ScanAction) : Prop :=
  match s.phase, a with
  | .receive stream, .receive (some (.ok [])) =>
    s.tipHeight < stream.position ∧ (∀ horizon ∈ stream.nextHorizonHeight, s.tipHeight < horizon) ∧
      ∀ target ∈ s.targets, target.accountId ∈ stream.rolledBack →
        s.tipHeight < target.nextBlockToScan
  | _, _ => True

instance (s : ScanLoop) (a : ScanAction) : Decidable (EndsPastTip s a) :=
  decidable_of_iff ((match s.phase, a with
    | .receive stream, .receive (some (.ok [])) =>
      decide (s.tipHeight < stream.position ∧
        (∀ horizon ∈ stream.nextHorizonHeight, s.tipHeight < horizon) ∧
        ∀ target ∈ s.targets, target.accountId ∈ stream.rolledBack →
          s.tipHeight < target.nextBlockToScan)
    | _, _ => true) = true) (by unfold EndsPastTip; split <;> simp)

/-- What `Ok((_, false))` should mean: every target is past the tip that the node reported for the
    last stream. -/
def CompletedAtTip (s : ScanLoop) : Prop :=
  s.phase = .returned false → ∀ target ∈ s.targets, s.tipHeight < target.nextBlockToScan

instance (s : ScanLoop) : Decidable (CompletedAtTip s) := by
  unfold CompletedAtTip; infer_instance

theorem completedAtTip_step (hreg : s.Regular) (hf : s.Following) (hend : EndsPastTip s a)
    (h : s.step co a = some s') : CompletedAtTip s' := by
  have hother : s'.phase ≠ .returned false → CompletedAtTip s' := fun hne hret => absurd hret hne
  have hnext : ∀ (t : ScanLoop) stream blocks rest,
      (t.nextAccount co stream blocks rest).phase ≠ .returned false := by
    intro t stream blocks rest
    rcases nextAccount_phase co t stream blocks rest with
      ⟨-, hp⟩ | ⟨-, hp | hp⟩ <;> rw [hp] <;> nofun
  have hcheck : ∀ accountIds stream, checkGlobalReorgs accountIds stream ≠ .returned false := by
    intro accountIds stream
    rcases checkGlobalReorgs_phase accountIds stream with hp | hp <;> rw [hp]
    · cases stream <;> nofun
    · nofun
  cases step_cases hreg h with
  | finished hphase hmode =>
      rename_i stream
      unfold EndsPastTip at hend
      rw [hphase] at hend
      obtain ⟨hposition, hhorizon, hrolled⟩ := hend
      intro _ target htarget
      cases hf.follows stream [] (by rw [hphase]; rfl) target htarget with
      | behind h => cases h
      | rolledBack h => exact hrolled target htarget h
      | active h hnext => exact hnext ▸ hposition
      | waiting h horizon hsome hle => exact Nat.lt_of_lt_of_le (hhorizon horizon hsome) hle
  | received hne hphase => exact hother (hnext _ _ _ _)
  | processed hphase hlast htarget hrun => exact hother (hnext _ _ _ _)
  | onChain budget hphase hrun hnone => exact hother (hcheck _ _)
  | rolledBack budget hphase hrun hsome => exact hother (hcheck _ _)
  | wokeToCheck hphase => exact hother (hcheck _ _)
  | _ => exact hother (by nofun)

/-- In a run whose end markers come past the tip, the loop reports completion only when every target
    is. -/
theorem completed_at_tip (co : ScanCoordinator) (db : Db) (targets : List AccountSyncTarget)
    (as : List ScanAction) (hids : (targets.map (·.accountId)).Nodup)
    (hend : Transition.Along (step co) EndsPastTip (co.unifiedScanLoop db targets) as) :
    Transition.Always (step co) CompletedAtTip (co.unifiedScanLoop db targets) as := by
  refine Transition.always_of_along
    (I := fun s => s.Regular ∧ s.Following ∧ CompletedAtTip s)
    (fun s a s' hs hend hstep => ⟨regular_step hs.1 hstep, following_step hs.1 hs.2.1 hstep,
      completedAtTip_step hs.1 hs.2.1 hend hstep⟩) (fun s hs => hs.2.2) ?_ hend
  exact ⟨trivial, .of_closed hids rfl, nofun⟩

end ScanLoop

/-- Blocks 0 and 1, and the end marker, of a node with the tip. -/
def scanTwoBlocks (tip : Nat) : List ScanAction :=
  [.iterate false (.ok tip), .receive (some (.ok [emptyBlock 0, emptyBlock 1])),
    .processBlocks 0 none, .receive (some (.ok []))]

/-- One account, scanned to the tip. -/
theorem completed_at_tip_scanTwoBlocks :
    (∃ s', Transition.run (ScanLoop.step (plainCoordinator .full))
        ((plainCoordinator .full).unifiedScanLoop Db.empty [⟨1, 7, 0⟩]) (scanTwoBlocks 1) =
          some s' ∧ decide (s'.phase = .returned false) = true) ∧
      Transition.Always (ScanLoop.step (plainCoordinator .full)) ScanLoop.CompletedAtTip
        ((plainCoordinator .full).unifiedScanLoop Db.empty [⟨1, 7, 0⟩]) (scanTwoBlocks 1) :=
  ⟨Transition.exists_run_of_any (by decide +kernel),
    ScanLoop.completed_at_tip (plainCoordinator .full) Db.empty [⟨1, 7, 0⟩] (scanTwoBlocks 1)
      (by decide) (by decide +kernel)⟩

/-- With another account waiting at block 2 and the tip at 9, the loop reports completion at that
    horizon, with both accounts at block 2. -/
theorem scanTwoBlocks_notAtTip :
    ∃ s', Transition.run (ScanLoop.step (plainCoordinator .full))
        ((plainCoordinator .full).unifiedScanLoop Db.empty [⟨1, 7, 0⟩, ⟨2, 8, 2⟩])
        (scanTwoBlocks 9) = some s' ∧
      s'.phase = .returned false ∧ s'.tipHeight = 9 ∧
      s'.targets.map (·.nextBlockToScan) = [2, 2] ∧ ¬ScanLoop.CompletedAtTip s' := by
  obtain ⟨s', hrun, hs'⟩ := Transition.exists_run_of_any
    (f := ScanLoop.step (plainCoordinator .full))
    (s := (plainCoordinator .full).unifiedScanLoop Db.empty [⟨1, 7, 0⟩, ⟨2, 8, 2⟩])
    (l := scanTwoBlocks 9)
    (q := fun s' => decide (s'.phase = .returned false ∧ s'.tipHeight = 9 ∧
      s'.targets.map (·.nextBlockToScan) = [2, 2] ∧ ¬ScanLoop.CompletedAtTip s'))
    (by decide +kernel)
  exact ⟨s', hrun, of_decide_eq_true hs'⟩

end MinotariWallet
