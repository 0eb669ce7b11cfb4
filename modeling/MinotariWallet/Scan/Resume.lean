import MinotariWallet.Scan.Maintenance
import MinotariWallet.Scan.Places

set_option autoImplicit false

/-! # Where scanning resumes

`prepare_target` resumes after the highest recorded block, and what is active should lie below. The
recorded blocks are pruned, and `rescan` of `main.rs` rolls back to whatever height the user gives:
between two recorded blocks that leaves rows above the one it keeps, and they are scanned again. -/

namespace MinotariWallet

open Sql Exec

/-- The wallet between two calls, and the block that each account scans next while it is scanned. -/
structure ResumeState where
  db : Db
  next : AccountId → Option Nat := fun _ => none

inductive ResumeAction where
  | prepareTarget (scanningOffset : Nat) (now : Timestamp) (account : AccountRow)
      (node : PrepareAnswers) (budget : Option Nat)
  | processBlock (bp : BlockProcessor) (block : BlockScanResult) (accountId : AccountId)
      (now : Timestamp) (budget : Option Nat)
  | pruneTips (accountId : AccountId) (budget : Option Nat)
  | handleReorgs (getHeaderByHeight : HeaderSource) (accountId : AccountId) (now : Timestamp)
      (budget : Option Nat)
  /-- The rollback of `rescan`, which no transaction is around. -/
  | rescan (accountId : AccountId) (rescanFromHeight : Nat)
      (webhookConfig : Option WebhookTriggerConfig) (now : Timestamp) (budget : Option Nat)

namespace ResumeState

/-- The account is left with the database, and scans `next` next. -/
def moveTo (s : ResumeState) (db : Db) (accountId : AccountId) (next : Option Nat) : ResumeState where
  db := db
  next := fun a => if a = accountId then next else s.next a

/-- One call. A call that fails ends the scan of its account. -/
def step (co : ScanCoordinator) (s : ResumeState) : ResumeAction → Option ResumeState
  | .prepareTarget scanningOffset now account node budget =>
    match co.prepareTarget scanningOffset now account node ⟨s.db, budget⟩ with
    | .ok target c => some (s.moveTo c.store account.id (some target.nextBlockToScan))
    | .error _ c => some (s.moveTo c.store account.id none)
  | .processBlock bp block accountId now budget =>
    if s.next accountId = some block.height then
      match inTransaction (bp.processBlock co.env now block accountId) ⟨s.db, budget⟩ with
      | .ok _ c => some (s.moveTo c.store accountId (some (block.height + 1)))
      | .error _ c => some (s.moveTo c.store accountId none)
    else none
  | .pruneTips accountId budget =>
    match s.next accountId with
    | some (reached + 1) =>
      match pruneTips accountId reached ⟨s.db, budget⟩ with
      | .ok _ c => some (s.moveTo c.store accountId (some (reached + 1)))
      | .error _ c => some (s.moveTo c.store accountId none)
    | _ => none
  | .handleReorgs getHeaderByHeight accountId now budget =>
    match MinotariWallet.handleReorgs getHeaderByHeight accountId co.webhookConfig now
        ⟨s.db, budget⟩ with
    | .ok result c =>
      some (s.moveTo c.store accountId ((s.next accountId).map (fun next =>
        if result.reorgInformation.isSome then result.resumeHeight else next)))
    | .error _ c => some (s.moveTo c.store accountId none)
  | .rescan accountId rescanFromHeight webhookConfig now budget =>
    match rollbackFromHeight accountId rescanFromHeight webhookConfig now ⟨s.db, budget⟩ with
    | .ok _ c => some (s.moveTo c.store accountId none)
    | .error _ c => some (s.moveTo c.store accountId none)

/-! ## The property and its condition -/

/-- The outputs and spends of the block that are on record for the account are in no block below
    it. -/
structure FirstHere (block : BlockScanResult) (accountId : AccountId) (db : Db) : Prop where
  outputs : ∀ w ∈ block.walletOutputs, ∀ o ∈ db.outputs.rows, o.active = true →
    o.accountId = accountId → o.outputHash = w.1 → block.height ≤ o.minedInBlockHeight
  inputs : ∀ hash ∈ block.inputs, ∀ o ∈ db.outputs.rows, o.active = true →
    o.accountId = accountId → o.outputHash = hash → ∀ i ∈ db.inputs.rows, i.active = true →
      i.accountId = accountId → i.outputId = o.id → block.height ≤ i.minedInBlockHeight

/-- None of the outputs of the block is on record for the account, so that it would hit the unique
    index, and none of its spends, so that it would be debited again. -/
structure Unrecorded (block : BlockScanResult) (accountId : AccountId) (db : Db) : Prop where
  outputs : ∀ w ∈ block.walletOutputs, ∀ o ∈ db.outputs.rows, o.active = true →
    o.accountId = accountId → o.outputHash ≠ w.1
  inputs : ∀ hash ∈ block.inputs, ∀ o ∈ db.outputs.rows, o.active = true →
    o.accountId = accountId → o.outputHash = hash → ∀ i ∈ db.inputs.rows, i.active = true →
      i.accountId = accountId → i.outputId ≠ o.id

/-- Nothing is active above where scanning resumes. -/
structure NothingAbove (co : ScanCoordinator) (s : ResumeState) : Prop where
  /-- What is active is at or below a recorded block, the greatest for one. -/
  recorded : ∀ a, ∀ h ∈ s.db.activeHeights a, ∃ t ∈ s.db.tipHeights a, h ≤ t
  /-- The account prepared now resumes above all that is active. -/
  resumed : ∀ scanningOffset now account node budget target c,
    co.prepareTarget scanningOffset now account node ⟨s.db, budget⟩ = .ok target c →
      ∀ h ∈ c.store.activeHeights account.id, h < target.nextBlockToScan
  /-- What the next block of an account has is not on record. -/
  unrecorded : ∀ a (block : BlockScanResult), s.next a = some block.height →
    FirstHere block a s.db → Unrecorded block a s.db

/-- A rescan leaves a recorded block at or above all that it leaves active, and the heights of blocks
    are below the last that the column holds. -/
def Aligned (s : ResumeState) : ResumeAction → Prop
  | .processBlock _ block _ _ _ => block.height + 1 < 2 ^ 63
  | .rescan accountId rescanFromHeight _ _ _ =>
    ∀ h ∈ s.db.activeHeights accountId, h < asI64 rescanFromHeight →
      ∃ t ∈ s.db.tipHeights accountId, h ≤ t ∧ t < asI64 rescanFromHeight
  | _ => True

instance (s : ResumeState) (a : ResumeAction) : Decidable (s.Aligned a) := by
  unfold Aligned
  split <;> infer_instance

/-! ## The invariant -/

/-- The rows of an account: below recorded blocks, whose heights fit the column. -/
structure Bounded (db : Db) (a : AccountId) : Prop where
  recorded : ∀ h ∈ db.activeHeights a, ∃ t ∈ db.tipHeights a, h ≤ t
  nonneg : ∀ h ∈ db.activeHeights a, 0 ≤ h
  fits : ∀ t ∈ db.tipHeights a, 0 ≤ t ∧ t + 1 < 2 ^ 63

/-- The account has recorded nothing at or above `next`, and either nothing at all or the block
    before. -/
structure ScannedUpTo (db : Db) (a : AccountId) (next : Nat) : Prop where
  below : ∀ t ∈ db.tipHeights a, t < next
  last : (∀ t, t ∉ db.tipHeights a) ∨ (next : Int) - 1 ∈ db.tipHeights a

structure Resumable (s : ResumeState) : Prop where
  bounded : ∀ a, Bounded s.db a
  reached : ∀ a next, s.next a = some next → ScannedUpTo s.db a next

section Account

variable {db db' : Db} {a accountId : AccountId} {next height : Nat}

theorem Bounded.congr (h : Bounded db a)
    (hactive : ∀ k, k ∈ db'.activeHeights a → k ∈ db.activeHeights a)
    (htips : ∀ k, k ∈ db'.tipHeights a ↔ k ∈ db.tipHeights a) : Bounded db' a where
  recorded k hk := by
    obtain ⟨t, ht, hle⟩ := h.recorded k (hactive k hk)
    exact ⟨t, (htips t).mpr ht, hle⟩
  nonneg k hk := h.nonneg k (hactive k hk)
  fits t ht := h.fits t ((htips t).mp ht)

theorem ScannedUpTo.congr (h : ScannedUpTo db a next)
    (htips : ∀ k, k ∈ db'.tipHeights a ↔ k ∈ db.tipHeights a) : ScannedUpTo db' a next where
  below t ht := h.below t ((htips t).mp ht)
  last := by simpa only [htips] using h.last

/-- What is active of an account is below the block it scans next. -/
theorem ScannedUpTo.active (h : ScannedUpTo db a next) (hb : Bounded db a) {k : Int}
    (hk : k ∈ db.activeHeights a) : k < next := by
  obtain ⟨t, ht, hle⟩ := hb.recorded k hk
  have := h.below t ht
  omega

theorem Bounded.process {block : BlockScanResult}
    (hadd : PlaceAdded (block.place accountId) db db') (hfits : block.height + 1 < 2 ^ 63)
    (h : Bounded db a) : Bounded db' a := by
  have hheight : (block.place accountId).height = block.height := asI64_of_lt (by omega)
  refine ⟨fun k hk => ?_, fun k hk => ?_, fun t ht => ?_⟩
  · rcases hadd.activeHeights hk with hk | ⟨ha, hk⟩
    · obtain ⟨t, ht, hle⟩ := h.recorded k hk
      exact ⟨t, hadd.tipHeights.mpr (Or.inl ht), hle⟩
    · exact ⟨k, hadd.tipHeights.mpr (Or.inr ⟨ha, hk⟩), Int.le_refl k⟩
  · rcases hadd.activeHeights hk with hk | ⟨-, hk⟩
    · exact h.nonneg k hk
    · omega
  · rcases hadd.tipHeights.mp ht with ht | ⟨-, ht⟩
    · exact h.fits t ht
    · omega

theorem ScannedUpTo.process {block : BlockScanResult}
    (hadd : PlaceAdded (block.place a) db db') (hfits : block.height + 1 < 2 ^ 63)
    (h : ScannedUpTo db a block.height) : ScannedUpTo db' a (block.height + 1) := by
  have hheight : (block.place a).height = block.height := asI64_of_lt (by omega)
  refine ⟨fun t ht => ?_, Or.inr (hadd.tipHeights.mpr (Or.inr ⟨rfl, ?_⟩))⟩
  · rcases hadd.tipHeights.mp ht with ht | ⟨-, ht⟩
    · have := h.below t ht
      omega
    · omega
  · omega

/-- A rollback that leaves a recorded block at or above all that it leaves active. -/
theorem Bounded.rollback (hrolled : PlacesRolledBack accountId height db db')
    (haligned : ∀ k ∈ db.activeHeights accountId, k < asI64 height →
      ∃ t ∈ db.tipHeights accountId, k ≤ t ∧ t < asI64 height)
    (h : Bounded db a) : Bounded db' a := by
  refine ⟨fun k hk => ?_, fun k hk => ?_, fun t ht => ?_⟩
  · obtain ⟨hk, hlt⟩ := hrolled.activeHeights.mp hk
    by_cases ha : a = accountId
    · subst ha
      obtain ⟨t, ht, hle, htlt⟩ := haligned k hk (hlt rfl)
      exact ⟨t, hrolled.tipHeights.mpr ⟨ht, fun _ => htlt⟩, hle⟩
    · obtain ⟨t, ht, hle⟩ := h.recorded k hk
      exact ⟨t, hrolled.tipHeights.mpr ⟨ht, fun ha' => absurd ha' ha⟩, hle⟩
  · exact h.nonneg k (hrolled.activeHeights.mp hk).1
  · exact h.fits t (hrolled.tipHeights.mp ht).1

/-- Pruning at the block reached leaves that block, and it is the greatest. -/
theorem Bounded.prune (h : Bounded db a) {reached : Nat}
    (hreached : ScannedUpTo db accountId (reached + 1)) :
    Bounded (db.pruneScannedTipBlocks accountId reached) a ∧
      ScannedUpTo (db.pruneScannedTipBlocks accountId reached) accountId (reached + 1) := by
  have hsub : ∀ {b t}, t ∈ (db.pruneScannedTipBlocks accountId reached).tipHeights b →
      t ∈ db.tipHeights b := fun ht => (mem_tipHeights_prune.mp ht).1
  -- the block reached is one of the recent ones
  have hkept : accountId = a → ∀ t ∈ db.tipHeights a, ∃ u ∈ (db.pruneScannedTipBlocks accountId
      reached).tipHeights a, t ≤ u ∧ u = (reached : Int) := by
    rintro rfl t ht
    have hlast : (reached : Int) ∈ db.tipHeights accountId := by
      rcases hreached.last with hnone | hlast
      · exact absurd ht (hnone t)
      · simpa using hlast
    have hfits := (h.fits _ hlast).2
    have hcast : asI64 (reached - Db.recentBlocksToKeep) = ((reached - Db.recentBlocksToKeep : Nat) : Int) :=
      asI64_of_lt (by omega)
    refine ⟨reached, mem_tipHeights_prune.mpr ⟨hlast, ?_⟩, ?_, rfl⟩
    · rintro ⟨-, hlt, -, -⟩
      rw [hcast] at hlt
      omega
    · have := hreached.below t ht
      omega
  constructor
  · refine ⟨fun k hk => ?_, fun k hk => h.nonneg k hk, fun t ht => h.fits t (hsub ht)⟩
    obtain ⟨t, ht, hle⟩ := h.recorded k hk
    by_cases ha : accountId = a
    · obtain ⟨u, hu, htu, -⟩ := hkept ha t ht
      exact ⟨u, hu, by omega⟩
    · exact ⟨t, mem_tipHeights_prune.mpr ⟨ht, fun hp => ha hp.1.symm⟩, hle⟩
  · refine ⟨fun t ht => hreached.below t (hsub ht), ?_⟩
    rcases hreached.last with hnone | hlast
    · exact Or.inl (fun t ht => hnone t (hsub ht))
    · refine Or.inr (mem_tipHeights_prune.mpr ⟨hlast, ?_⟩)
      rintro ⟨-, hlt, -, -⟩
      have := asI64_le (reached - Db.recentBlocksToKeep)
      push_cast at hlt
      omega

theorem mem_tipHeights_row {t : Int} :
    t ∈ db.tipHeights a ↔ ∃ r ∈ db.scannedTipBlocks.rows, r.accountId = a ∧ r.height = t := by
  simp [Db.tipHeights, and_assoc]

/-- A check keeps the rows of all accounts in bounds, and what it leaves of its own was scanned up to
    where it resumes. -/
theorem Bounded.check {getHeaderByHeight : HeaderSource} {now : Timestamp} {result : ReorgResult}
    (hcheck : ReorgCheck getHeaderByHeight accountId now db result db') (h : ∀ a, Bounded db a) :
    (∀ a, Bounded db' a) ∧ ∀ n, (result.resumeHeight = 0 ∨ n = result.resumeHeight) →
      ScannedUpTo db' accountId n := by
  cases hcheck with
  | nothingRecorded hblocks =>
      have hnone : ∀ t, t ∉ db.tipHeights accountId := by
        intro t ht
        obtain ⟨r, hr, ha, -⟩ := mem_tipHeights_row.mp ht
        have := (mem_scannedTipBlocks hblocks).mpr ⟨r, hr, ha, rfl⟩
        cases this
      exact ⟨h, fun n _ => ⟨fun t ht => absurd ht (hnone t), Or.inl hnone⟩⟩
  | onChain hblocks hfork =>
      rename_i first rest _
      refine ⟨h, fun n hn => ?_⟩
      obtain rfl : n = first.height + 1 := hn.resolve_left (Nat.succ_ne_zero _)
      refine ⟨fun t ht => ?_, Or.inr ?_⟩
      · obtain ⟨r, hr, ha, rfl⟩ := mem_tipHeights_row.mp ht
        have := scannedTipBlocks_le_first hblocks hr ha
        push_cast
        omega
      · obtain ⟨r, hr, ha, rfl⟩ := (mem_scannedTipBlocks hblocks).mp List.mem_cons_self
        have := scannedTipBlocks_nonneg hblocks hr ha
        refine mem_tipHeights_row.mpr ⟨r, hr, ha, ?_⟩
        push_cast
        omega
  | rolledBack hblocks hfork hrolled =>
      rename_i blocks r info
      have hplaces := hrolled.places
      obtain ⟨gone, kept, rfl, -, -, ⟨-, rfl⟩ | ⟨b, rest, rfl, -, rfl⟩⟩ := findForkPoint_ok hfork
      · have hcast : asI64 0 = 0 := rfl
        have hnone : ∀ t, t ∉ db'.tipHeights accountId := by
          intro t ht
          obtain ⟨ht, hlt⟩ := hplaces.tipHeights.mp ht
          have := ((h accountId).fits t ht).1
          have := hlt rfl
          omega
        refine ⟨fun a => (h a).rollback hplaces (fun k hk hlt => ?_), fun n _ =>
          ⟨fun t ht => absurd ht (hnone t), Or.inl hnone⟩⟩
        have := (h accountId).nonneg k hk
        omega
      · -- the recorded block that the walk stops at stays, and it is next below
        obtain ⟨s, hs, ha, rfl⟩ := (mem_scannedTipBlocks hblocks).mp
          (List.mem_append_right gone List.mem_cons_self)
        have hnonneg := scannedTipBlocks_nonneg hblocks hs ha
        have hmem : (s.block.height : Int) ∈ db.tipHeights accountId :=
          mem_tipHeights_row.mpr ⟨s, hs, ha, hnonneg.symm⟩
        have hfits := (h accountId).fits _ hmem
        have hcast : asI64 (s.block.height + 1) = ((s.block.height + 1 : Nat) : Int) :=
          asI64_of_lt (by omega)
        have hkept : (s.block.height : Int) ∈ db'.tipHeights accountId :=
          hplaces.tipHeights.mpr ⟨hmem, fun _ => by rw [hcast]; push_cast; omega⟩
        refine ⟨fun a => (h a).rollback hplaces (fun k hk hlt => ?_), fun n hn => ?_⟩
        · rw [hcast] at hlt ⊢
          exact ⟨s.block.height, hmem, by push_cast at hlt; omega, by push_cast; omega⟩
        · obtain rfl : n = s.block.height + 1 := hn.resolve_left (Nat.succ_ne_zero _)
          refine ⟨fun t ht => ?_, Or.inr (by simpa using hkept)⟩
          have hlt := (hplaces.tipHeights.mp ht).2 rfl
          rwa [hcast] at hlt

theorem PlacesRolledBack.tipHeights_others (hrolled : PlacesRolledBack accountId height db db')
    (ha : a ≠ accountId) (t : Int) : t ∈ db'.tipHeights a ↔ t ∈ db.tipHeights a := by
  rw [hrolled.tipHeights]
  simp [ha]

theorem ReorgCheck.tipHeights_others {getHeaderByHeight : HeaderSource} {now : Timestamp}
    {result : ReorgResult} (hcheck : ReorgCheck getHeaderByHeight accountId now db result db')
    (ha : a ≠ accountId) (t : Int) : t ∈ db'.tipHeights a ↔ t ∈ db.tipHeights a := by
  cases hcheck with
  | nothingRecorded _ => rfl
  | onChain _ _ => rfl
  | rolledBack _ _ hrolled => exact PlacesRolledBack.tipHeights_others hrolled.places ha t

end Account

variable {co : ScanCoordinator} {s s' : ResumeState} {a : ResumeAction}

/-- The rows stay in bounds, and the account that the call is about has been scanned up to its next
    block. -/
theorem Resumable.moveTo (h : s.Resumable) {db : Db} {accountId : AccountId} {next : Option Nat}
    (hbounded : ∀ b, Bounded db b)
    (hothers : ∀ b, b ≠ accountId → ∀ t, t ∈ db.tipHeights b ↔ t ∈ s.db.tipHeights b)
    (hnext : ∀ n, next = some n → ScannedUpTo db accountId n) :
    (s.moveTo db accountId next).Resumable := by
  refine ⟨hbounded, fun b n hn => ?_⟩
  simp only [ResumeState.moveTo] at hn
  split at hn
  · next hb =>
      subst hb
      exact hnext n hn
  · next hb => exact (h.reached b n hn).congr (hothers b hb)

/-- A call that leaves the database as it was and ends the scan of the account. -/
theorem Resumable.stop (h : s.Resumable) (accountId : AccountId) {db : Db} (hdb : db = s.db) :
    (s.moveTo db accountId none).Resumable := by
  subst hdb
  exact h.moveTo h.bounded (fun _ _ _ => Iff.rfl) nofun

theorem resumable_step (h : s.Resumable) (ha : s.Aligned a) (hstep : s.step co a = some s') :
    s'.Resumable := by
  cases a with
  | prepareTarget scanningOffset now account node budget =>
      simp only [step] at hstep
      split at hstep
      · next target c hrun =>
          cases hstep
          obtain ⟨-, result, hcheck, hnext⟩ := prepareTarget_check hrun
          obtain ⟨hbounded, hup⟩ := Bounded.check hcheck h.bounded
          refine h.moveTo hbounded (fun b hb t => ReorgCheck.tipHeights_others hcheck hb t) ?_
          rintro n hn
          cases hn
          exact hup _ hnext
      · next e c hrun =>
          cases hstep
          rcases prepareTarget_error hrun with hdb | ⟨result, hcheck⟩
          · exact h.stop account.id hdb
          · exact h.moveTo (Bounded.check hcheck h.bounded).1
              (fun b hb t => ReorgCheck.tipHeights_others hcheck hb t) nofun
  | processBlock bp block accountId now budget =>
      simp only [step] at hstep
      split at hstep
      · next hnext =>
          split at hstep
          · next outcome c hrun =>
              cases hstep
              obtain ⟨c₁, hblock, hstore⟩ := inTransaction_ok hrun
              have hadd := processBlock_places hblock
              rw [← hstore] at hadd
              refine h.moveTo (fun b => (h.bounded b).process hadd ha) (fun b hb t => ?_) ?_
              · rw [hadd.tipHeights]
                simp [show b ≠ (block.place accountId).accountId from hb]
              · intro n hn
                cases hn
                exact (h.reached accountId _ hnext).process hadd ha
          · next e c hrun =>
              cases hstep
              exact h.stop accountId (inTransaction_error hrun)
      · cases hstep
  | pruneTips accountId budget =>
      simp only [step] at hstep
      split at hstep
      · next reached hnext =>
          have hreached := h.reached accountId _ hnext
          split at hstep
          · next c hrun =>
              cases hstep
              have hstore : c.store = s.db.pruneScannedTipBlocks accountId reached := by
                unfold pruneTips update at hrun
                have hs := stmt_ok hrun
                simp only [Except.ok.injEq, Prod.mk.injEq, true_and] at hs
                exact hs.symm
              rw [hstore]
              refine h.moveTo (fun b => ((h.bounded b).prune hreached).1) (fun b hb t => ?_) ?_
              · rw [mem_tipHeights_prune]
                simp [hb]
              · intro n hn
                cases hn
                exact ((h.bounded accountId).prune hreached).2
          · next e c hrun =>
              cases hstep
              unfold pruneTips update at hrun
              exact h.stop accountId (stmt_error hrun)
      · cases hstep
  | handleReorgs getHeaderByHeight accountId now budget =>
      simp only [step] at hstep
      split at hstep
      · next result c hrun =>
          cases hstep
          have hcheck := handleReorgs_ok hrun
          obtain ⟨hbounded, hup⟩ := Bounded.check hcheck h.bounded
          refine h.moveTo hbounded (fun b hb t => ReorgCheck.tipHeights_others hcheck hb t) ?_
          intro n hn
          obtain ⟨next, hnext, rfl⟩ := Option.map_eq_some_iff.mp hn
          split
          · exact hup _ (Or.inr rfl)
          · next hnone =>
              -- nothing was rolled back, so the account stays where it is
              have hsame : c.store = s.db := by
                generalize c.store = db' at hcheck
                cases hcheck with
                | nothingRecorded _ => rfl
                | onChain _ _ => rfl
                | rolledBack _ _ _ => simp at hnone
              rw [hsame]
              exact h.reached accountId next hnext
      · next e c hrun =>
          cases hstep
          exact h.stop accountId (handleReorgs_error hrun)
  | rescan accountId rescanFromHeight webhookConfig now budget =>
      have hthroughout := rollbackFromHeight_throughout accountId rescanFromHeight webhookConfig now
        s.db ⟨s.db, budget⟩ rfl
      -- wherever the rollback stops, no recorded block is gone before what is active above it
      have hreduced : ∀ db, PlacesReduced accountId rescanFromHeight s.db db →
          (s.moveTo db accountId none).Resumable := by
        intro db hred
        rcases hred.tips with htips | hrolled
        · exact h.moveTo (fun b => (h.bounded b).congr (fun k hk => hred.activeHeights hk)
            (fun k => mem_tipHeights_of_eq htips)) (fun b _ t => mem_tipHeights_of_eq htips) nofun
        · exact h.moveTo (fun b => (h.bounded b).rollback hrolled ha)
            (fun b hb t => PlacesRolledBack.tipHeights_others hrolled hb t) nofun
      simp only [step] at hstep
      split at hstep
      · next info c hrun =>
          cases hstep
          rw [hrun] at hthroughout
          exact hreduced _ hthroughout.reduced
      · next e c hrun =>
          cases hstep
          rw [hrun] at hthroughout
          exact hreduced _ hthroughout

theorem Resumable.nothingAbove (h : s.Resumable) : s.NothingAbove co where
  recorded a := (h.bounded a).recorded
  resumed scanningOffset now account node budget target c hrun k hk := by
    obtain ⟨-, result, hcheck, hnext⟩ := prepareTarget_check hrun
    obtain ⟨hbounded, hup⟩ := Bounded.check hcheck h.bounded
    exact (hup _ hnext).active (hbounded account.id) hk
  unrecorded b block hnext hfirst := by
    have hbelow : ∀ k ∈ s.db.activeHeights b, k < block.height := fun k hk =>
      (h.reached b _ hnext).active (h.bounded b) hk
    constructor
    · intro w hw o ho hactive hacc hhash
      have hge := hfirst.outputs w hw o ho hactive hacc hhash
      have hlt := hbelow _ (mem_activeHeights.mpr
        ⟨o.place, Or.inl ⟨o, ho, hactive, rfl⟩, hacc, rfl⟩)
      exact absurd hlt (not_lt.mpr hge)
    · intro hash hw o ho hactive hacc hhash i hi hiactive hiacc hid
      have hge := hfirst.inputs hash hw o ho hactive hacc hhash i hi hiactive hiacc hid
      have hlt := hbelow _ (mem_activeHeights.mpr
        ⟨i.place, Or.inr ⟨i, hi, hiactive, rfl⟩, hiacc, rfl⟩)
      exact absurd hlt (not_lt.mpr hge)

theorem resumable_empty : ResumeState.Resumable { db := Db.empty } where
  bounded a := by
    refine ⟨fun k hk => ?_, fun k hk => ?_, fun t ht => ?_⟩
    · cases hk
    · cases hk
    · cases ht
  reached := nofun

/-- In every run from the empty database in which each rescan is aligned with a recorded block,
    nothing is active above where scanning resumes. -/
theorem nothingAbove_always {as : List ResumeAction}
    (haligned : Transition.Along (step co) Aligned { db := Db.empty } as) :
    Transition.Always (step co) (NothingAbove co) { db := Db.empty } as :=
  Transition.always_of_along (fun _ _ _ h ha hstep => resumable_step h ha hstep)
    (fun _ h => h.nothingAbove) resumable_empty haligned

/-! ## A rescan between recorded blocks -/

/-- The node has the account's birthday at block 1. -/
def birthdayAtOne : PrepareAnswers := ⟨fun _ => .ok none, fun _ => .ok 1⟩

def accountOne : BlockProcessor := BlockProcessor.withEventSender [(1, 7)] 3

/-- Account 1 is prepared, and receives an output in block 1. -/
def receiveInOne : List ResumeAction :=
  [.prepareTarget 0 0 ⟨1, 7, 0⟩ birthdayAtOne none,
    .processBlock accountOne ⟨1, 101, [(500, { outputHash := 500, value := 10 }, 0)], [], 1000⟩ 1 0
      none]

/-- A rescan from the block itself. -/
theorem nothingAbove_rescanFromOne :
    Transition.Along (step (plainCoordinator .full)) Aligned { db := Db.empty }
        (receiveInOne ++ [.rescan 1 1 none 0 none]) ∧
      Transition.Always (step (plainCoordinator .full)) (NothingAbove (plainCoordinator .full))
        { db := Db.empty } (receiveInOne ++ [.rescan 1 1 none 0 none]) := by
  have haligned : Transition.Along (step (plainCoordinator .full)) Aligned { db := Db.empty }
      (receiveInOne ++ [.rescan 1 1 none 0 none]) := by decide +kernel
  exact ⟨haligned, nothingAbove_always haligned⟩

/-- A block in which nothing is found is processed. -/
theorem processBlock_empty_returns (height : Nat) :
    Returns (fun _ => True) (accountOne.processBlock plainEnv 0 (emptyBlock height) 1)
      (fun _ _ => True) := by
  unfold BlockProcessor.processBlock
  refine Returns.bind (Q := fun _ _ => True) (Returns.lift (a := 7) rfl (fun _ _ => trivial))
    (fun key => ?_)
  refine Returns.bind (Q := fun st _ => st.acc.isEmpty = true) ?_ (fun st => ?_)
  · refine Returns.bind (Q := fun st _ => st.acc.isEmpty = true)
      (Returns.pure (fun _ _ => rfl)) (fun st => ?_)
    exact Returns.bind (Q := fun _ _ => st.acc.isEmpty = true) (Returns.pure (fun _ h => h))
      (fun _ => Returns.pure (fun _ h => h))
  refine Returns.bind (Q := fun acc _ => acc.isEmpty = true) (Returns.pure (fun _ h => h))
    (fun acc => ?_)
  refine Returns.bind (Q := fun _ _ => acc.isEmpty = true) (Returns.update (fun _ h => h))
    (fun _ => ?_)
  refine Returns.bind (Q := fun _ _ => acc.isEmpty = true) ?_ (fun confirmed => ?_)
  · refine Returns.bind (Q := fun _ _ => acc.isEmpty = true) (Returns.query (fun _ h => h))
      (fun unconfirmed => ?_)
    refine Returns.bind (Q := fun _ _ => acc.isEmpty = true)
      (Returns.foldlM unconfirmed [] (fun events row => ?_)) (fun events => ?_)
    · refine Returns.bind (Q := fun _ _ => acc.isEmpty = true) (Returns.insert (fun _ h => h))
        (fun _ => ?_)
      exact Returns.bind (Q := fun _ _ => acc.isEmpty = true) (Returns.update (fun _ h => h))
        (fun _ => Returns.pure (fun _ h => h))
    · exact Returns.bind (Q := fun _ _ => acc.isEmpty = true) (Returns.pure (fun _ h => h))
        (fun _ => Returns.pure (fun _ h => h))
  exact Returns.bind (Q := fun _ _ => True) (Returns.ite
    (fun _ => Returns.pure (fun _ _ => trivial)) (fun hne _ hempty => absurd hempty hne))
    (fun _ => Returns.pure (fun _ _ => trivial))

theorem step_empty {s : ResumeState} {height : Nat} (hnext : s.next 1 = some height) :
    ∃ s', s.step (plainCoordinator .full) (.processBlock accountOne (emptyBlock height) 1 0 none) =
        some s' ∧ s'.next 1 = some (height + 1) ∧
      PlaceAdded ((emptyBlock height).place 1) s.db s'.db := by
  obtain ⟨outcome, db', hrun, -⟩ := (Returns.inTransaction (processBlock_empty_returns height)) s.db
    trivial
  refine ⟨s.moveTo db' 1 (some (height + 1)), ?_, rfl, ?_⟩
  · have henv : (plainCoordinator .full).env = plainEnv := rfl
    simp only [step, henv]
    rw [if_pos (show s.next 1 = some (emptyBlock height).height from hnext), hrun]
    rfl
  · obtain ⟨c₁, hblock, hstore⟩ := inTransaction_ok hrun
    have hadd := processBlock_places hblock
    rw [← hstore] at hadd
    exact hadd

/-- Blocks in which nothing is found, from a height on. -/
def scanEmpty (height count : Nat) : List ResumeAction :=
  (List.range' height count).map (fun h => .processBlock accountOne (emptyBlock h) 1 0 none)

/-- They are recorded, and what was active stays. -/
theorem run_scanEmpty {s : ResumeState} {height : Nat} (count : Nat)
    (hnext : s.next 1 = some height) (hfits : height + count < 2 ^ 63) :
    ∃ s', Transition.run (step (plainCoordinator .full)) s (scanEmpty height count) = some s' ∧
      s'.next 1 = some (height + count) ∧
      (∀ k ∈ s.db.activeHeights 1, k ∈ s'.db.activeHeights 1) ∧
      ∀ t ∈ s'.db.tipHeights 1, t ∈ s.db.tipHeights 1 ∨ (height : Int) ≤ t := by
  induction count generalizing s height with
  | zero => exact ⟨s, rfl, hnext, fun _ h => h, fun _ h => Or.inl h⟩
  | succ count ih =>
      obtain ⟨t, ht, htnext, hadd⟩ := step_empty hnext
      obtain ⟨s', hrun, hs'next, hkept, htips⟩ := ih htnext (by omega)
      refine ⟨s', Transition.run_cons.mpr ⟨t, ht, hrun⟩, by rw [hs'next]; congr 1; omega,
        fun k hk => hkept k (hadd.activeHeights_kept hk), fun k hk => ?_⟩
      have hheight : ((emptyBlock height).place 1).height = height :=
        asI64_of_lt (show height < 2 ^ 63 by omega)
      rcases htips k hk with hk | hk
      · rcases hadd.tipHeights.mp hk with hk | ⟨-, hk⟩
        · exact Or.inl hk
        · exact Or.inr (by omega)
      · exact Or.inr (by push_cast at hk; omega)

/-- Account 1 receives an output in block 1 and scans to block 1002; pruning takes the record of
    block 1 away. -/
def prunedAboveOne : List ResumeAction := receiveInOne ++ (scanEmpty 2 1001 ++ [.pruneTips 1 none])

/-- A rescan from block 2 then leaves the output of block 1 and no recorded block: block 1 is scanned
    again. -/
theorem rescanFromTwo_active :
    ∃ s, Transition.run (step (plainCoordinator .full)) { db := Db.empty }
        (prunedAboveOne ++ [.rescan 1 2 none 0 none]) = some s ∧
      1 ∈ s.db.activeHeights 1 ∧ s.db.tipHeights 1 = [] ∧
      ¬s.NothingAbove (plainCoordinator .full) := by
  obtain ⟨s₁, hrun₁, hs₁⟩ := Transition.exists_run_of_any (f := step (plainCoordinator .full))
    (s := { db := Db.empty }) (l := receiveInOne)
    (q := fun s => decide (s.next 1 = some 2 ∧ s.db.activeHeights 1 = [1] ∧
      s.db.tipHeights 1 = [1])) (by decide +kernel)
  simp only [decide_eq_true_eq] at hs₁
  obtain ⟨hnext₁, hactive₁, htips₁⟩ := hs₁
  obtain ⟨s₂, hrun₂, hnext₂, hactive₂, htips₂⟩ := run_scanEmpty 1001 hnext₁ (by omega)
  have hstep₃ : s₂.step (plainCoordinator .full) (.pruneTips 1 none) =
      some (s₂.moveTo (s₂.db.pruneScannedTipBlocks 1 1002) 1 (some 1003)) := by
    simp only [step, hnext₂]
    rfl
  have htips₃ : ∀ t ∈ (s₂.db.pruneScannedTipBlocks 1 1002).tipHeights 1, 2 ≤ t := by
    intro t ht
    obtain ⟨ht, hkept⟩ := mem_tipHeights_prune.mp ht
    rcases htips₂ t ht with ht | ht
    · rw [htips₁, List.mem_singleton] at ht
      subst ht
      exact absurd ⟨rfl, by decide, by decide, by decide⟩ hkept
    · exact ht
  obtain ⟨blocks, hread⟩ : ∃ blocks,
      (s₂.db.pruneScannedTipBlocks 1 1002).getScannedTipBlocksByAccount 1 = .ok blocks :=
    ⟨_, getScannedTipBlocksByAccount_ok.mpr ⟨fun r hr ha => by
      have := htips₃ _ (mem_tipHeights_row.mpr ⟨r, hr, ha, rfl⟩)
      omega, rfl⟩⟩
  have hreturns : Returns (· = s₂.db.pruneScannedTipBlocks 1 1002)
      (rollbackFromHeight 1 2 none 0) (fun _ _ => True) := rollbackFromHeight_returns 2 hread
  obtain ⟨info, db₄, hrun₄, -⟩ := hreturns _ rfl
  have hrolled := (rollbackFromHeight_rolledBack hrun₄).places
  have hnone : ∀ t, t ∉ db₄.tipHeights 1 := by
    intro t ht
    obtain ⟨ht, hlt⟩ := hrolled.tipHeights.mp ht
    have hge := htips₃ t ht
    have hlt : t < 2 := hlt rfl
    omega
  have hactive : 1 ∈ db₄.activeHeights 1 := by
    refine hrolled.activeHeights.mpr ⟨?_, fun _ => by decide⟩
    exact hactive₂ 1 (by simp [hactive₁])
  refine ⟨(s₂.moveTo (s₂.db.pruneScannedTipBlocks 1 1002) 1 (some 1003)).moveTo db₄ 1 none, ?_,
    hactive, List.eq_nil_iff_forall_not_mem.mpr hnone, fun h => ?_⟩
  · unfold prunedAboveOne
    rw [List.append_assoc, List.append_assoc]
    refine Transition.run_append.mpr ⟨s₁, hrun₁, Transition.run_append.mpr ⟨s₂, hrun₂, ?_⟩⟩
    refine Transition.run_cons.mpr ⟨_, hstep₃, Transition.run_cons.mpr ⟨_, ?_, rfl⟩⟩
    simp only [step]
    rw [show (s₂.moveTo (s₂.db.pruneScannedTipBlocks 1 1002) 1 (some 1003)).db =
      s₂.db.pruneScannedTipBlocks 1 1002 from rfl, hrun₄]
  · obtain ⟨t, ht, -⟩ := h.recorded 1 1 hactive
    exact hnone t ht

end ResumeState

end MinotariWallet
