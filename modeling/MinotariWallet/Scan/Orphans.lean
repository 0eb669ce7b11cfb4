import MinotariWallet.Scan.Maintenance
import MinotariWallet.Scan.Places

set_option autoImplicit false

/-! # Blocks that a reorg check misses

The walk of `handle_reorgs` stops at the first recorded block that the node has, and takes all below
it for shared. That is so where the recorded blocks are on one chain; but `process_block` compares
no block with the one recorded before it, so when the node leaves its chain between a check and the
opening of a stream, blocks of the new chain are recorded over those of the old one. -/

namespace MinotariWallet

open Sql Exec

section Chained

variable {prev : FixedHash → FixedHash} {A B : HashChain prev} {accountId : AccountId} {db db' : Db}

/-- The recorded blocks of each account are on one chain, and every undeleted output and input is in
    a recorded block. -/
structure Chained (prev : FixedHash → FixedHash) (db : Db) : Prop where
  tips : ∀ accountId, ∃ A : HashChain prev, TipsOn A accountId db
  active : db.activePlaces ⊆ db.tipPlaces
  fits : ∀ r ∈ db.scannedTipBlocks.rows, r.height < 2 ^ 63

theorem TipsOn.recordedOn (h : TipsOn A accountId db) (hactive : db.activePlaces ⊆ db.tipPlaces) :
    RecordedOn A accountId db where
  tips := h
  outputs o ho hact ha := by
    obtain ⟨r, hr, hplace⟩ := hactive (Or.inl ⟨o, ho, hact, rfl⟩)
    simp only [ScannedTipBlockRow.place, OutputRow.place, Place.mk.injEq] at hplace
    obtain ⟨hacc, hheight, hhash⟩ := hplace
    rw [← hheight, ← hhash]
    exact h r hr (hacc.trans ha)
  inputs i hi hact ha := by
    obtain ⟨r, hr, hplace⟩ := hactive (Or.inr ⟨i, hi, hact, rfl⟩)
    simp only [ScannedTipBlockRow.place, InputRow.place, Place.mk.injEq] at hplace
    obtain ⟨hacc, hheight, hhash⟩ := hplace
    rw [← hheight, ← hhash]
    exact h r hr (hacc.trans ha)

theorem chained_empty : Chained prev Db.empty where
  tips _ := ⟨⟨[], .nil⟩, fun r hr => (by cases hr)⟩
  active := by
    rintro p (⟨o, ho, -⟩ | ⟨i, hi, -⟩)
    · cases ho
    · cases hi
  fits r hr := by cases hr

/-! ## A check -/

/-- What a check leaves is on the node's chain. -/
theorem ReorgCheck.recordedOn {now : Timestamp} {result : ReorgResult} (h : Chained prev db)
    (hcheck : ReorgCheck (headersOf B) accountId now db result db') :
    RecordedOn B accountId db' ∧ Chained prev db' := by
  obtain ⟨A, hA⟩ := h.tips accountId
  have hfound := ForkFound.of_check (hA.recordedOn h.active) h.fits hcheck
  have hrows : ∀ r ∈ db'.scannedTipBlocks.rows, r ∈ db.scannedTipBlocks.rows :=
    fun r hr => (hcheck.tips hr).1
  have hactive : db'.activePlaces ⊆ db'.tipPlaces := by
    cases hcheck with
    | nothingRecorded hblocks => exact h.active
    | onChain hblocks hfork => exact h.active
    | rolledBack hblocks hfork hrolled =>
        rw [hrolled.places.active, hrolled.places.tips]
        exact fun p hp => ⟨h.active hp.1, hp.2⟩
  refine ⟨TipsOn.recordedOn hfound.tipsOn hactive, fun a => ?_, hactive,
    fun r hr => h.fits r (hrows r hr)⟩
  obtain ⟨C, hC⟩ := h.tips a
  exact ⟨C, fun r hr ha => hC r (hrows r hr) ha⟩

/-! ## A batch -/

/-- The blocks of the batch that the account processes are on the chain, at heights that fit the
    column. -/
def BlocksOn (A : HashChain prev) (next : Nat) (blocks : List BlockScanResult) : Prop :=
  ∀ b ∈ blocks, next ≤ b.height → b.height < 2 ^ 63 ∧ A.Has b.height b.blockHash

/-- They are on one chain with what is recorded for the account. -/
def ContinuesRecorded (prev : FixedHash → FixedHash) (accountId : AccountId) (next : Nat)
    (blocks : List BlockScanResult) (db : Db) : Prop :=
  ∃ A : HashChain prev, TipsOn A accountId db ∧ BlocksOn A next blocks

/-- A batch records its blocks, and has rows in no others. -/
theorem processBlocks_places {env : ScanEnv} {bp : BlockProcessor} {now : Timestamp} {next : Nat}
    {blocks : List BlockScanResult} {events : List WalletEvent} {c c' : Conn Db}
    (h : processBlocks env bp now blocks accountId next c = .ok events c')
    (hactive : c.store.activePlaces ⊆ c.store.tipPlaces) :
    c'.store.activePlaces ⊆ c'.store.tipPlaces ∧ ∀ p ∈ c'.store.tipPlaces,
      p ∈ c.store.tipPlaces ∨ ∃ b ∈ blocks, next ≤ b.height ∧ p = b.place accountId := by
  let places : Db → Prop := fun db => db.activePlaces ⊆ db.tipPlaces ∧ ∀ p ∈ db.tipPlaces,
    p ∈ c.store.tipPlaces ∨ ∃ b ∈ blocks, next ≤ b.height ∧ p = b.place accountId
  have hloop := Ensures.foldlM
    (f := fun (events : List WalletEvent) block => do
      let outcome ← bp.processBlock env now block accountId
      pure (events ++ outcome.walletEvents))
    (I := fun rest _ db => rest ⊆ blocks.filter (fun b => next ≤ b.height) ∧ places db)
    (blocks.filter (fun b => next ≤ b.height)) [] (fun b rest events => ?_)
  · exact (Ensures.inTransaction hloop c events c'
      ⟨List.Subset.refl _, hactive, fun p hp => Or.inl hp⟩ h).2
  · refine Ensures.bind (Q := fun _ db => rest ⊆ blocks.filter (fun b => next ≤ b.height) ∧
      places db) ?_ (fun outcome => Ensures.pure (fun db hdb => hdb))
    rintro c₁ outcome c₂ ⟨hsub, hactive₁, htips₁⟩ hrun
    obtain ⟨hb, hrest⟩ := List.cons_subset.mp hsub
    obtain ⟨hb, hnext⟩ := List.mem_filter.mp hb
    have hadded := processBlock_places hrun
    refine ⟨hrest, ?_, fun p hp => ?_⟩
    · rw [hadded.tips]
      exact hadded.added.trans (Set.insert_subset_insert hactive₁)
    · rw [hadded.tips] at hp
      rcases hp with rfl | hp
      · exact Or.inr ⟨b, hb, of_decide_eq_true hnext, rfl⟩
      · exact htips₁ p hp

/-- A batch that extends what is recorded. -/
theorem Chained.processBlocks {env : ScanEnv} {bp : BlockProcessor} {now : Timestamp} {next : Nat}
    {blocks : List BlockScanResult} {events : List WalletEvent} {c c' : Conn Db}
    (h : Chained prev c.store) (hext : ContinuesRecorded prev accountId next blocks c.store)
    (hrun : processBlocks env bp now blocks accountId next c = .ok events c') :
    Chained prev c'.store := by
  obtain ⟨A, hA, hblocks⟩ := hext
  obtain ⟨hactive, htips⟩ := processBlocks_places hrun h.active
  have hrow : ∀ r ∈ c'.store.scannedTipBlocks.rows, r.place ∈ c.store.tipPlaces ∨
      ∃ b ∈ blocks, next ≤ b.height ∧ r.place = b.place accountId :=
    fun r hr => htips r.place ⟨r, hr, rfl⟩
  refine ⟨fun a => ?_, hactive, fun r hr => ?_⟩
  · by_cases ha : a = accountId
    · subst ha
      refine ⟨A, fun r hr hacc => ?_⟩
      rcases hrow r hr with ⟨r₀, hr₀, hplace⟩ | ⟨b, hb, hnext, hplace⟩
      · simp only [ScannedTipBlockRow.place, Place.mk.injEq] at hplace
        rw [← hplace.2.1, ← hplace.2.2]
        exact hA r₀ hr₀ (hplace.1.trans hacc)
      · simp only [ScannedTipBlockRow.place, BlockScanResult.place, Place.mk.injEq] at hplace
        obtain ⟨hlt, hon⟩ := hblocks b hb hnext
        rw [hplace.2.1, hplace.2.2, asI64_of_lt hlt]
        exact hon
    · obtain ⟨C, hC⟩ := h.tips a
      refine ⟨C, fun r hr hacc => ?_⟩
      rcases hrow r hr with ⟨r₀, hr₀, hplace⟩ | ⟨b, -, -, hplace⟩
      · simp only [ScannedTipBlockRow.place, Place.mk.injEq] at hplace
        rw [← hplace.2.1, ← hplace.2.2]
        exact hC r₀ hr₀ (hplace.1.trans hacc)
      · simp only [ScannedTipBlockRow.place, BlockScanResult.place, Place.mk.injEq] at hplace
        exact absurd (hacc.symm.trans hplace.1) ha
  · rcases hrow r hr with ⟨r₀, hr₀, hplace⟩ | ⟨b, hb, hnext, hplace⟩
    · simp only [ScannedTipBlockRow.place, Place.mk.injEq] at hplace
      rw [← hplace.2.1]
      exact h.fits r₀ hr₀
    · simp only [ScannedTipBlockRow.place, BlockScanResult.place, Place.mk.injEq] at hplace
      have hlt := (hblocks b hb hnext).1
      rw [hplace.2.1, asI64_of_lt hlt]
      exact_mod_cast hlt

end Chained

/-! ## A node that switches chains -/

/-- The scan of the wallet, and the node that it asks. The targets are those prepared for the next
    call of the loop. -/
structure NodeScan (prev : FixedHash → FixedHash) where
  loop : ScanLoop
  chain : HashChain prev
  targets : List AccountSyncTarget := []

inductive NodeAction (prev : FixedHash → FixedHash) where
  /-- The node leaves its chain for another one. -/
  | switchChain (chain : HashChain prev)
  | prepareTarget (scanningOffset : Nat) (now : Timestamp) (account : AccountRow)
      (getHeightAtTime : Nat → Except WalletDbError Nat) (budget : Option Nat)
  /-- The loop is called for the prepared targets. -/
  | unifiedScanLoop
  | handleReorgs (now : Timestamp) (budget : Option Nat)
  /-- Any other step of the loop. -/
  | scan (a : ScanAction)

/-- The loop has returned. -/
def LoopPhase.ended : LoopPhase → Bool
  | .returned _ => true
  | .failed _ => true
  | _ => false

def ScanAction.checksReorgs : ScanAction → Bool
  | .handleReorgs _ _ _ => true
  | _ => false

/-- The account that `check_global_reorgs` checks next. -/
def LoopPhase.checking? : LoopPhase → Option AccountId
  | .checkReorgs (accountId :: _) _ => some accountId
  | _ => none

namespace NodeScan

variable {prev : FixedHash → FixedHash}

/-- Nothing is recorded, and no loop runs. -/
def start (co : ScanCoordinator) (chain : HashChain prev) : NodeScan prev where
  loop := { co.unifiedScanLoop Db.empty [] with phase := .returned false }
  chain := chain

def step (co : ScanCoordinator) (s : NodeScan prev) : NodeAction prev → Option (NodeScan prev)
  | .switchChain chain => some { s with chain }
  | .prepareTarget scanningOffset now account getHeightAtTime budget =>
    if s.loop.phase.ended then
      match co.prepareTarget scanningOffset now account ⟨headersOf s.chain, getHeightAtTime⟩
          ⟨s.loop.db, budget⟩ with
      | .ok target c =>
        some { s with loop := { s.loop with db := c.store }, targets := s.targets ++ [target] }
      | .error _ c => some { s with loop := { s.loop with db := c.store }, targets := [] }
    else none
  | .unifiedScanLoop =>
    if s.loop.phase.ended then
      some { s with loop := co.unifiedScanLoop s.loop.db s.targets, targets := [] }
    else none
  | .handleReorgs now budget =>
    (s.loop.step co (.handleReorgs (headersOf s.chain) now budget)).map ({ s with loop := · })
  | .scan a => if a.checksReorgs then none else (s.loop.step co a).map ({ s with loop := · })

/-- The call of `handle_reorgs` that the action makes. -/
def check? (s : NodeScan prev) : NodeAction prev → Option (AccountId × Timestamp × Option Nat)
  | .prepareTarget _ now account _ budget => some (account.id, now, budget)
  | .handleReorgs now budget =>
    s.loop.phase.checking?.map (fun accountId => (accountId, now, budget))
  | _ => none

/-- After a check that returns, what is recorded and active of the account is on the chain of the
    node. -/
def LeavesNoOrphans (co : ScanCoordinator) (s : NodeScan prev) (a : NodeAction prev) :
    Prop :=
  ∀ call ∈ s.check? a,
    match handleReorgs (headersOf s.chain) call.1 co.webhookConfig call.2.1
        ⟨s.loop.db, call.2.2⟩ with
    | .ok _ c => RecordedOn s.chain call.1 c.store
    | .error _ _ => True

/-- When an account processes a batch, the batch and what is recorded are so. -/
def Processes (P : AccountId → Nat → List BlockScanResult → Db → Prop) (s : NodeScan prev)
    (a : NodeAction prev) : Prop :=
  match s.loop.phase, a with
  | .processBatch _ blocks (accountId :: _), .scan (.processBlocks _ _) =>
    ∀ target ∈ findTarget s.loop.targets accountId,
      P accountId target.nextBlockToScan blocks s.loop.db
  | _, _ => True

theorem Processes.mono {P Q : AccountId → Nat → List BlockScanResult → Db → Prop}
    (hPQ : ∀ accountId next blocks db, P accountId next blocks db → Q accountId next blocks db)
    {s : NodeScan prev} {a : NodeAction prev} (h : Processes P s a) : Processes Q s a := by
  unfold Processes at h ⊢
  generalize s.loop.phase = phase at h ⊢
  split at h
  · exact fun target htarget => hPQ _ _ _ _ (h target htarget)
  · trivial

/-- What an account processes of a batch is on one chain with what is recorded for it. -/
def Links (s : NodeScan prev) (a : NodeAction prev) : Prop := Processes (ContinuesRecorded prev) s a

variable {co : ScanCoordinator} {s s' : NodeScan prev} {a : NodeAction prev}

theorem leavesNoOrphans (h : Chained prev s.loop.db) : LeavesNoOrphans co s a := by
  intro call hcall
  cases hrun : handleReorgs (headersOf s.chain) call.1 co.webhookConfig call.2.1
      ⟨s.loop.db, call.2.2⟩ with
  | ok result c => exact (ReorgCheck.recordedOn h (handleReorgs_ok hrun)).1
  | error e c => trivial

/-- A step of the loop, whose reorg checks ask a node on one chain. -/
theorem chained_loop {loop loop' : ScanLoop} {b : ScanAction} (hreg : loop.Regular)
    (h : Chained prev loop.db)
    (hlinks : ∀ stream blocks accountId rest now budget,
      loop.phase = .processBatch stream blocks (accountId :: rest) → b = .processBlocks now budget →
      ∀ target ∈ findTarget loop.targets accountId,
        ContinuesRecorded prev accountId target.nextBlockToScan blocks loop.db)
    (hnode : ∀ getHeaderByHeight now budget, b = .handleReorgs getHeaderByHeight now budget →
      ∃ B : HashChain prev, getHeaderByHeight = headersOf B)
    (hstep : loop.step co b = some loop') : Chained prev loop'.db := by
  cases ScanLoop.step_cases hreg hstep with
  | received hne hphase =>
      rw [(ScanLoop.nextAccount_fields co loop _ _ _).1]
      exact h
  | processed hphase hlast htarget hrun =>
      rw [(ScanLoop.nextAccount_fields co _ _ _ _).1]
      exact Chained.processBlocks h (hlinks _ _ _ _ _ _ hphase rfl _ htarget) hrun
  | onChain budget hphase hcheck hnone =>
      obtain ⟨B, rfl⟩ := hnode _ _ _ rfl
      exact (ReorgCheck.recordedOn h hcheck).2
  | rolledBack budget hphase hcheck hsome =>
      obtain ⟨B, rfl⟩ := hnode _ _ _ rfl
      exact (ReorgCheck.recordedOn h hcheck).2
  | _ => exact h

theorem chained_step (hreg : s.loop.Regular) (h : Chained prev s.loop.db) (hlinks : Links s a)
    (hstep : s.step co a = some s') : s'.loop.Regular ∧ Chained prev s'.loop.db := by
  cases a with
  | switchChain chain =>
      cases hstep
      exact ⟨hreg, h⟩
  | prepareTarget scanningOffset now account getHeightAtTime budget =>
      simp only [step] at hstep
      split at hstep
      · split at hstep
        · next target c hrun =>
            cases hstep
            obtain ⟨-, result, hcheck, -⟩ := prepareTarget_check hrun
            exact ⟨hreg, (ReorgCheck.recordedOn h hcheck).2⟩
        · next e c hrun =>
            cases hstep
            rcases prepareTarget_error hrun with hsame | ⟨result, hcheck⟩
            · exact ⟨hreg, show Chained prev c.store from hsame ▸ h⟩
            · exact ⟨hreg, (ReorgCheck.recordedOn h hcheck).2⟩
      · cases hstep
  | unifiedScanLoop =>
      simp only [step] at hstep
      split at hstep
      · cases hstep
        exact ⟨show (co.unifiedScanLoop s.loop.db s.targets).Regular from trivial, h⟩
      · cases hstep
  | handleReorgs now budget =>
      obtain ⟨loop, hloop, rfl⟩ := Option.map_eq_some_iff.mp hstep
      refine ⟨ScanLoop.regular_step hreg hloop, chained_loop hreg h ?_ ?_ hloop⟩
      · intro _ _ _ _ _ _ _ heq
        cases heq
      · intro _ _ _ heq
        cases heq
        exact ⟨s.chain, rfl⟩
  | scan b =>
      simp only [step] at hstep
      split at hstep
      · cases hstep
      · next hother =>
          obtain ⟨loop, hloop, rfl⟩ := Option.map_eq_some_iff.mp hstep
          refine ⟨ScanLoop.regular_step hreg hloop, chained_loop hreg h ?_ ?_ hloop⟩
          · intro stream blocks accountId rest now budget hphase heq
            subst heq
            unfold Links Processes at hlinks
            rw [hphase] at hlinks
            exact hlinks
          · intro _ _ _ heq
            subst heq
            exact absurd rfl hother

/-- In every run, whatever chains the node switches to, in which what an account processes of a
    batch is on one chain with what is recorded for it, a reorg check leaves nothing of the account
    that is not on the node's chain. -/
theorem checks_leave_no_orphans (co : ScanCoordinator) (chain : HashChain prev)
    (as : List (NodeAction prev))
    (hlinks : Transition.Along (step co) Links (start co chain) as) :
    Transition.Along (step co) (LeavesNoOrphans co) (start co chain) as := by
  refine Transition.along_of_along
    (I := fun s : NodeScan prev => s.loop.Regular ∧ Chained prev s.loop.db)
    (fun s a s' hs hg hstep => chained_step hs.1 hs.2 hg hstep)
    (fun s a s' hs _ _ => leavesNoOrphans hs.2) ⟨trivial, chained_empty⟩ hlinks

end NodeScan

/-! ## A switch between a check and a stream

Account 1 scans from block 6, and finds an output in block 7. Then the node leaves block 7. -/

variable {prev : FixedHash → FixedHash}

instance (A : HashChain prev) (accountId : AccountId) (db : Db) :
    Decidable (TipsOn A accountId db) :=
  inferInstanceAs (Decidable (∀ r ∈ db.scannedTipBlocks.rows, r.accountId = accountId →
    A.Has r.height r.hash))

instance (A : HashChain prev) (next : Nat) (blocks : List BlockScanResult) :
    Decidable (BlocksOn A next blocks) := by
  unfold BlocksOn; infer_instance

instance (A : HashChain prev) (accountId : AccountId) (db : Db) :
    Decidable (RecordedOn A accountId db) :=
  decidable_of_iff (TipsOn A accountId db ∧
      (∀ o ∈ db.outputs.rows, o.active = true → o.accountId = accountId →
        A.Has o.minedInBlockHeight o.minedInBlockHash) ∧
      ∀ i ∈ db.inputs.rows, i.active = true → i.accountId = accountId →
        A.Has i.minedInBlockHeight i.minedInBlockHash)
    ⟨fun h => ⟨h.1, h.2.1, h.2.2⟩, fun h => ⟨h.1, h.2, h.3⟩⟩

namespace NodeScan

instance (co : ScanCoordinator) (s : NodeScan prev) (a : NodeAction prev) :
    Decidable (LeavesNoOrphans co s a) := by
  unfold LeavesNoOrphans
  have : ∀ call : AccountId × Timestamp × Option Nat, Decidable (
      match handleReorgs (headersOf s.chain) call.1 co.webhookConfig call.2.1
          ⟨s.loop.db, call.2.2⟩ with
      | .ok _ c => RecordedOn s.chain call.1 c.store
      | .error _ _ => True) := by
    intro call
    split <;> infer_instance
  infer_instance

/-- The stream delivers blocks of the chain that the node is on. -/
def FromNode (s : NodeScan prev) : NodeAction prev → Prop
  | .scan (.receive (some (.ok blocks))) => BlocksOn s.chain 0 blocks
  | _ => True

instance (s : NodeScan prev) (a : NodeAction prev) : Decidable (FromNode s a) := by
  unfold FromNode
  split <;> infer_instance

end NodeScan

/-- Blocks 6 and 7 are scanned to the end marker. -/
def scannedToEnd : List (NodeAction exampleParent) :=
  [.prepareTarget 0 0 ⟨1, 7, 0⟩ (fun _ => .ok 6) none, .unifiedScanLoop,
    .scan (.iterate false (.ok 7)),
    .scan (.receive (some (.ok [emptyBlock 6,
      ⟨7, 107, [(500, { outputHash := 500, value := 100000 }, 0)], [], 1000⟩]))),
    .scan (.processBlocks 0 none), .scan (.receive (some (.ok [])))]

/-- The next stream delivers the blocks from 7 on of the chain that the node has switched to. -/
def rescannedFork : List (NodeAction exampleParent) :=
  [.scan (.iterate false (.ok 8)),
    .scan (.receive (some (.ok [⟨7, 207, [], [], 1001⟩, ⟨8, 208, [], [], 1002⟩]))),
    .scan (.processBlocks 0 none), .scan (.receive (some (.ok []))), .scan (.wake false),
    .handleReorgs 0 none]

/-- The node switches after the check of a poll cycle. -/
def switchedAfterCheck : List (NodeAction exampleParent) :=
  scannedToEnd ++ [.scan (.wake false), .handleReorgs 0 none, .switchChain forkedChain] ++
    rescannedFork

/-- Then the next check finds the highest block on the node, and leaves block 7 and its output. -/
theorem switchedAfterCheck_leaves_orphans :
    (∃ s', Transition.run (NodeScan.step (plainCoordinator .continuous))
        (NodeScan.start (plainCoordinator .continuous) exampleChain) switchedAfterCheck = some s' ∧
        decide (∃ o ∈ s'.loop.db.outputs.rows, o.active = true ∧
          ¬s'.chain.Has o.minedInBlockHeight o.minedInBlockHash) = true) ∧
      Transition.Along (NodeScan.step (plainCoordinator .continuous)) NodeScan.FromNode
        (NodeScan.start (plainCoordinator .continuous) exampleChain) switchedAfterCheck ∧
      ¬Transition.Along (NodeScan.step (plainCoordinator .continuous))
        (NodeScan.LeavesNoOrphans (plainCoordinator .continuous))
        (NodeScan.start (plainCoordinator .continuous) exampleChain) switchedAfterCheck :=
  ⟨Transition.exists_run_of_any (by decide +kernel), by decide +kernel, by decide +kernel⟩

/-- The node switches before that check, which rolls block 7 back. -/
def switchedBeforeCheck : List (NodeAction exampleParent) :=
  scannedToEnd ++ [.switchChain forkedChain, .scan (.wake false), .handleReorgs 0 none] ++
    rescannedFork

/-- What is processed of a batch is on one of the chains with what is recorded. -/
def LinksTo (chains : List (HashChain prev)) (accountId : AccountId) (next : Nat)
    (blocks : List BlockScanResult) (db : Db) : Prop :=
  ∃ A ∈ chains, TipsOn A accountId db ∧ BlocksOn A next blocks

instance (chains : List (HashChain prev)) (s : NodeScan prev) (a : NodeAction prev) :
    Decidable (s.Processes (LinksTo chains) a) := by
  unfold NodeScan.Processes LinksTo
  split <;> infer_instance

theorem switchedBeforeCheck_links : Transition.Along (NodeScan.step (plainCoordinator .continuous))
    NodeScan.Links (NodeScan.start (plainCoordinator .continuous) exampleChain)
    switchedBeforeCheck :=
  Transition.along_of_along (I := fun _ => True)
    (G := NodeScan.Processes (LinksTo [exampleChain, forkedChain])) (fun _ _ _ _ _ _ => trivial)
    (fun _ _ _ _ h _ => h.mono (fun _ _ _ _ ⟨A, _, hA⟩ => ⟨A, hA⟩)) trivial (by decide +kernel)

theorem switchedBeforeCheck_leaves_no_orphans :
    Transition.Along (NodeScan.step (plainCoordinator .continuous))
      (NodeScan.LeavesNoOrphans (plainCoordinator .continuous))
      (NodeScan.start (plainCoordinator .continuous) exampleChain) switchedBeforeCheck :=
  NodeScan.checks_leave_no_orphans (plainCoordinator .continuous) exampleChain switchedBeforeCheck
    switchedBeforeCheck_links

end MinotariWallet
