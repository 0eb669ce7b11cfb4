import MinotariWallet.Lib.Transition
import MinotariWallet.Scan.ForkPoint

set_option autoImplicit false

/-! # What a reorganization costs after pruning

`prune_scanned_tip_blocks` keeps the last 1000 recorded blocks and, of those before, every 500th. The
walk of `handle_reorgs` stops at the highest recorded block that the node still has, so what is
scanned again lies between that block and the fork. -/

namespace MinotariWallet

open Sql Exec

/-! ## Runs -/

/-- The recorded blocks of an account while it is scanned: `next` is recorded next, blocks below
    `top` were reached, and `prunedAt` is the greatest height pruned at. -/
structure TipScan where
  db : Db
  next : Nat
  top : Nat
  prunedAt : Nat

inductive TipAction where
  | insert (hash : FixedHash)
  | prune (height : Nat)
  | rollback (height : Nat) (webhookConfig : Option WebhookTriggerConfig) (now : Timestamp)
  | check (getHeaderByHeight : HeaderSource) (webhookConfig : Option WebhookTriggerConfig)
      (now : Timestamp) (restart : Nat)

namespace TipScan

/-- The scan of an account from `start` on, with no block recorded. -/
def init (db : Db) (start : Nat) : TipScan := ⟨db, start, 0, 0⟩

/-- After a check that leaves no recorded block, the scan restarts no higher than it started. -/
def step (accountId : AccountId) (start : Nat) (s : TipScan) : TipAction → Option TipScan
  | .insert hash =>
    -- `insert_scanned_tip_block` takes the height as an `i64`
    if s.next < 2 ^ 63 then
      some { s with
        db := s.db.insertScannedTipBlock accountId (asI64 s.next) hash
        next := s.next + 1
        top := max s.top (s.next + 1) }
    else none
  | .prune height =>
    if height < s.top then
      some { s with
        db := s.db.pruneScannedTipBlocks accountId height
        prunedAt := max s.prunedAt height }
    else none
  | .rollback height webhookConfig now =>
    if height < s.next then
      (runOk (rollbackFromHeight accountId height webhookConfig now) s.db).map
        (fun r => { s with db := r.2, next := height })
    else none
  | .check getHeaderByHeight webhookConfig now restart =>
    if restart ≤ start then
      (runOk (handleReorgs getHeaderByHeight accountId webhookConfig now) s.db).map
        (fun r => { s with
          db := r.2
          next := if r.1.resumeHeight = 0 then restart else r.1.resumeHeight })
    else none

/-- Pruning has not removed the block at this height. -/
def Retains (s : TipScan) (height : Nat) : Prop :=
  s.prunedAt ≤ height + 1000 ∨ height % 500 = 0

/-- The recorded blocks of the account: one at a height, and one at each height that was scanned and
    is retained. -/
structure Covers (accountId : AccountId) (start : Nat) (s : TipScan) : Prop where
  next : s.next ≤ start ∨ s.next ≤ 2 ^ 63
  top : s.top ≤ 2 ^ 63
  bounds : ∀ r ∈ s.db.scannedTipBlocks.rows, r.accountId = accountId →
    0 ≤ r.height ∧ r.height < s.next ∧ r.height < 2 ^ 63
  unique : ∀ r ∈ s.db.scannedTipBlocks.rows, ∀ r' ∈ s.db.scannedTipBlocks.rows,
    r.accountId = accountId → r'.accountId = accountId → r.height = r'.height → r = r'
  retained : ∀ height, start ≤ height → height < s.next → s.Retains height →
    ∃ r ∈ s.db.scannedTipBlocks.rows, r.accountId = accountId ∧ r.height = (height : Int)

variable {accountId : AccountId} {start : Nat} {s s' : TipScan}

theorem Covers.init {db : Db} (hnone : ∀ r ∈ db.scannedTipBlocks.rows, r.accountId ≠ accountId) :
    Covers accountId start (init db start) where
  next := Or.inl (Nat.le_refl _)
  top := Nat.zero_le _
  bounds r hr ha := absurd ha (hnone r hr)
  unique r hr _ _ ha := absurd ha (hnone r hr)
  retained _ hstart hnext := absurd hnext (Nat.not_lt.mpr hstart)

theorem Covers.insert (h : Covers accountId start s) (hnext : s.next < 2 ^ 63) (hash : FixedHash) :
    Covers accountId start { s with
      db := s.db.insertScannedTipBlock accountId (asI64 s.next) hash
      next := s.next + 1
      top := max s.top (s.next + 1) } := by
  have hheight : asI64 s.next = s.next := asI64_of_lt hnext
  -- all rows are below the next height, so nothing is ignored
  have hfresh : s.db.scannedTipBlocks.exists? (fun b => b.accountId == accountId &&
      b.height == asI64 s.next && b.hash == hash) = false := by
    refine Table.exists?_eq_false.mpr (fun r hr => ?_)
    by_contra hp
    simp only [Bool.not_eq_false, Bool.and_eq_true, beq_iff_eq] at hp
    have := (h.bounds r hr hp.1.1).2.1
    omega
  have hmem : ∀ r, r ∈ (s.db.insertScannedTipBlock accountId (asI64 s.next)
      hash).scannedTipBlocks.rows ↔ r ∈ s.db.scannedTipBlocks.rows ∨
        r = ⟨s.db.scannedTipBlocks.seq + 1, accountId, asI64 s.next, hash⟩ := by
    intro r
    rw [Db.insertScannedTipBlock, hfresh]
    exact AutoTable.mem_insert (fun _ => rfl)
  constructor
  · exact Or.inr hnext
  · have := h.top
    show max s.top (s.next + 1) ≤ 2 ^ 63
    omega
  · intro r hr ha
    show 0 ≤ r.height ∧ r.height < ((s.next + 1 : Nat) : Int) ∧ r.height < 2 ^ 63
    rcases (hmem r).mp hr with hold | rfl
    · have := h.bounds r hold ha
      omega
    · simp only [hheight]
      omega
  · intro r hr r' hr' ha ha' heq
    rcases (hmem r).mp hr with hold | rfl
    · rcases (hmem r').mp hr' with hold' | rfl
      · exact h.unique r hold r' hold' ha ha' heq
      · have := (h.bounds r hold ha).2.1
        simp only [hheight] at heq
        omega
    · rcases (hmem r').mp hr' with hold' | rfl
      · have := (h.bounds r' hold' ha').2.1
        simp only [hheight] at heq
        omega
      · rfl
  · intro height hstart hlt hretains
    rcases Nat.lt_succ_iff_lt_or_eq.mp hlt with hbelow | rfl
    · obtain ⟨r, hr, hrow⟩ := h.retained height hstart hbelow hretains
      exact ⟨r, (hmem r).mpr (Or.inl hr), hrow⟩
    · exact ⟨_, (hmem _).mpr (Or.inr rfl), rfl, hheight⟩

/-- Pruning at a height keeps the row of every height that is then retained. -/
theorem mem_pruneScannedTipBlocks {db : Db} {height : Nat} (hheight : height < 2 ^ 63)
    {r : ScannedTipBlockRow} :
    r ∈ (db.pruneScannedTipBlocks accountId height).scannedTipBlocks.rows ↔
      r ∈ db.scannedTipBlocks.rows ∧ ¬(r.accountId = accountId ∧ 0 ≤ r.height ∧
        r.height < ((height - 1000 : Nat) : Int) ∧ r.height % 500 ≠ 0) := by
  have hrecent : asI64 (height - Db.recentBlocksToKeep) = ((height - 1000 : Nat) : Int) :=
    asI64_of_lt (by unfold Db.recentBlocksToKeep; omega)
  have hinterval : asI64 Db.oldBlocksPruningInterval = 500 := rfl
  rw [Db.pruneScannedTipBlocks, AutoTable.mem_deleteWhere, hrecent, hinterval]
  refine and_congr_right (fun _ => ?_)
  rw [← Bool.not_eq_true]
  simp only [Bool.and_eq_true, beq_iff_eq, decide_eq_true_eq]
  refine not_congr ⟨?_, ?_⟩
  · rintro ⟨⟨⟨ha, hlt⟩, hnonneg⟩, hinterval⟩
    exact ⟨ha, hnonneg, hlt, hinterval⟩
  · rintro ⟨ha, hnonneg, hlt, hinterval⟩
    exact ⟨⟨⟨ha, hlt⟩, hnonneg⟩, hinterval⟩

theorem Covers.prune (h : Covers accountId start s) {height : Nat} (htop : height < s.top) :
    Covers accountId start { s with
      db := s.db.pruneScannedTipBlocks accountId height
      prunedAt := max s.prunedAt height } := by
  have hheight : height < 2 ^ 63 := Nat.lt_of_lt_of_le htop h.top
  have hmem := @mem_pruneScannedTipBlocks accountId s.db height hheight
  constructor
  · exact h.next
  · exact h.top
  · exact fun r hr ha => h.bounds r (hmem.mp hr).1 ha
  · exact fun r hr r' hr' => h.unique r (hmem.mp hr).1 r' (hmem.mp hr').1
  · intro k hstart hlt hretains
    have hretains' : max s.prunedAt height ≤ k + 1000 ∨ k % 500 = 0 := hretains
    have hbefore : s.Retains k := hretains'.imp_left (Nat.le_trans (Nat.le_max_left _ _))
    obtain ⟨r, hr, ha, hk⟩ := h.retained k hstart hlt hbefore
    refine ⟨r, hmem.mpr ⟨hr, ?_⟩, ha, hk⟩
    rintro ⟨-, -, hold, hinterval⟩
    omega

/-- Rows that go from a height on leave the blocks below it. -/
theorem Covers.cut (h : Covers accountId start s) {db : Db} {next : Nat}
    (hnext : next ≤ s.next ∨ next ≤ start)
    (hsub : ∀ r ∈ db.scannedTipBlocks.rows, r ∈ s.db.scannedTipBlocks.rows)
    (hbelow : ∀ r ∈ db.scannedTipBlocks.rows, r.accountId = accountId → r.height < next)
    (hkept : ∀ r ∈ s.db.scannedTipBlocks.rows, r.accountId = accountId → start ≤ r.height →
      r.height < next → r ∈ db.scannedTipBlocks.rows) :
    Covers accountId start { s with db, next } where
  next := by
    show next ≤ start ∨ next ≤ 2 ^ 63
    have := h.next
    omega
  top := h.top
  bounds r hr ha :=
    ⟨(h.bounds r (hsub r hr) ha).1, hbelow r hr ha, (h.bounds r (hsub r hr) ha).2.2⟩
  unique r hr r' hr' := h.unique r (hsub r hr) r' (hsub r' hr')
  retained height hstart hlt hretains := by
    have hlt' : height < next := hlt
    obtain ⟨r, hr, ha, hheight⟩ := h.retained height hstart (by omega) hretains
    exact ⟨r, hkept r hr ha (by omega) (by omega), ha, hheight⟩

theorem Covers.rolledBack (h : Covers accountId start s) {height : Nat} (hlt : height < s.next)
    {now : Timestamp} {db : Db} (hrolled : RolledBack accountId height now s.db db) :
    Covers accountId start { s with db, next := height } := by
  have hmem : ∀ r, r ∈ db.scannedTipBlocks.rows ↔ r ∈ s.db.scannedTipBlocks.rows ∧
      ¬(r.accountId = accountId ∧ asI64 height ≤ r.height) := by
    intro r
    rw [hrolled.tips, Db.deleteScannedTipBlocksFromHeight, AutoTable.mem_deleteWhere]
    simp
  refine h.cut (Or.inl (Nat.le_of_lt hlt)) (fun r hr => ((hmem r).mp hr).1) (fun r hr ha => ?_)
    (fun r hr ha hstart hbelow => (hmem r).mpr ⟨hr, fun hgone => ?_⟩)
  · obtain ⟨hr, hkept⟩ := (hmem r).mp hr
    have hle : r.height < asI64 height := not_le.mp (fun hle => hkept ⟨ha, hle⟩)
    exact Int.lt_of_lt_of_le hle (asI64_le height)
  · -- a height that does not fit is past all rows only when nothing was recorded from `start` on
    have hfits : height < 2 ^ 63 := by
      have := h.next
      have := h.bounds r hr ha
      omega
    rw [asI64_of_lt hfits] at hgone
    omega

/-- The height that a check rolls back from fits the column, since there is a row above it. -/
theorem Covers.fork_fits (h : Covers accountId start s) {getHeaderByHeight : HeaderSource}
    {blocks : List ScannedTipBlock} {height : Nat}
    (hblocks : s.db.getScannedTipBlocksByAccount accountId = .ok blocks)
    (hfork : findForkPoint getHeaderByHeight blocks = .ok (height, true)) : height < 2 ^ 63 := by
  obtain ⟨gone, kept, rfl, hgone, hdetected, ⟨-, rfl⟩ | ⟨b, rest, rfl, hb, rfl⟩⟩ :=
    findForkPoint_ok hfork
  · decide
  · obtain ⟨g, tail, rfl⟩ := List.exists_cons_of_ne_nil (hdetected.mp rfl)
    obtain ⟨r, hr, ha, rfl⟩ := (mem_scannedTipBlocks hblocks).mp (List.mem_cons_self (a := g))
    obtain ⟨q, hq, hqa, rfl⟩ := (mem_scannedTipBlocks hblocks).mp
      (List.mem_append_right (r.block :: tail) (List.mem_cons_self (a := b)))
    have hr0 := scannedTipBlocks_nonneg hblocks hr ha
    have hq0 := scannedTipBlocks_nonneg hblocks hq hqa
    have hle : q.block.height ≤ r.block.height :=
      (List.pairwise_append.mp (scannedTipBlocks_sorted hblocks)).2.2 r.block List.mem_cons_self
        q.block List.mem_cons_self
    -- the two are not one row: the node has only one of them
    have hne : q.height ≠ r.height := by
      intro heq
      have hsame := h.unique q hq r hr hqa ha heq
      exact hgone r.block List.mem_cons_self (hsame ▸ hb)
    have := h.bounds r hr ha
    omega

theorem Covers.checked (h : Covers accountId start s) {getHeaderByHeight : HeaderSource}
    {now : Timestamp} {result : ReorgResult} {db : Db}
    (hcheck : ReorgCheck getHeaderByHeight accountId now s.db result db) {restart : Nat}
    (hrestart : restart ≤ start) :
    Covers accountId start { s with
      db
      next := if result.resumeHeight = 0 then restart else result.resumeHeight } := by
  have hsub : ∀ r ∈ db.scannedTipBlocks.rows, r ∈ s.db.scannedTipBlocks.rows :=
    fun r hr => (hcheck.tips hr).1
  have hbelow : ∀ r ∈ db.scannedTipBlocks.rows, r.accountId = accountId →
      r.height < result.resumeHeight := fun r hr ha => (hcheck.tips hr).2 ha
  have hresume : result.resumeHeight ≤ s.next := by
    rcases hcheck.resume with hzero | ⟨r, hr, ha, heq⟩
    · omega
    · have := h.bounds r hr ha
      omega
  have hkept : ∀ r ∈ s.db.scannedTipBlocks.rows, r.accountId = accountId →
      r.height < result.resumeHeight → r ∈ db.scannedTipBlocks.rows := by
    intro r hr ha hlt
    cases hcheck with
    | nothingRecorded hblocks => exact hr
    | onChain hblocks hfork => exact hr
    | rolledBack hblocks hfork hrolled =>
        have hfits := h.fork_fits hblocks hfork
        rw [hrolled.tips, Db.deleteScannedTipBlocksFromHeight, AutoTable.mem_deleteWhere,
          asI64_of_lt hfits]
        exact ⟨hr, by simp [ha, hlt]⟩
  by_cases hzero : result.resumeHeight = 0
  · rw [if_pos hzero]
    refine h.cut (Or.inr hrestart) hsub (fun r hr ha => ?_) (fun r hr ha hstart hlt => ?_)
    · have := hbelow r hr ha
      have := (h.bounds r (hsub r hr) ha).1
      omega
    · omega
  · rw [if_neg hzero]
    exact h.cut (Or.inl hresume) hsub hbelow (fun r hr ha _ hlt => hkept r hr ha hlt)

theorem Covers.step (h : Covers accountId start s) {a : TipAction}
    (hstep : s.step accountId start a = some s') : Covers accountId start s' := by
  cases a with
  | insert hash =>
      obtain ⟨hnext, hs'⟩ := Option.ite_none_right_eq_some.mp hstep
      cases hs'
      exact h.insert hnext hash
  | prune height =>
      obtain ⟨htop, hs'⟩ := Option.ite_none_right_eq_some.mp hstep
      cases hs'
      exact h.prune htop
  | rollback height webhookConfig now =>
      obtain ⟨hlt, hrun⟩ := Option.ite_none_right_eq_some.mp hstep
      obtain ⟨⟨info, db⟩, hok, rfl⟩ := Option.map_eq_some_iff.mp hrun
      obtain ⟨c', hrun', rfl⟩ := runOk_eq_some.mp hok
      exact h.rolledBack hlt (rollbackFromHeight_rolledBack hrun')
  | check getHeaderByHeight webhookConfig now restart =>
      obtain ⟨hrestart, hrun⟩ := Option.ite_none_right_eq_some.mp hstep
      obtain ⟨⟨result, db⟩, hok, rfl⟩ := Option.map_eq_some_iff.mp hrun
      obtain ⟨c', hrun', rfl⟩ := runOk_eq_some.mp hok
      exact h.checked (handleReorgs_ok hrun') hrestart

/-! ## Reorganizations -/

section Chains

variable {prev : FixedHash → FixedHash} {A B : HashChain prev}

/-- The two chains have the same block at this height, and at none above it. -/
structure ForkAt (A B : HashChain prev) (fork : Nat) : Prop where
  agree : AgreeAt A B fork
  last : ∀ height, AgreeAt A B height → height ≤ fork

/-- A check after a fork at this height resumes right after it, or less than an interval below. -/
structure ResumesNear (start : Nat) (s : TipScan) (fork resumeHeight : Nat) : Prop where
  recent : s.prunedAt ≤ fork + 1000 → resumeHeight = fork + 1
  old : fork + 1000 < s.prunedAt → (∃ k, start ≤ 500 * k ∧ 500 * k ≤ fork) →
    fork < resumeHeight + 500

/-- A retained height up to the fork is where the check resumes, or below it. -/
theorem Covers.le_resume (h : Covers accountId start s) (hA : TipsOn A accountId s.db) {fork : Nat}
    (hfork : ForkAt A B fork) (htip : fork < s.next) {resumeHeight : Nat}
    (hresume : ResumesAfterFork A B accountId s.db resumeHeight) {height : Nat}
    (hstart : start ≤ height) (hle : height ≤ fork) (hretains : s.Retains height) :
    height < resumeHeight ∧ resumeHeight ≤ fork + 1 := by
  obtain ⟨r, hr, ha, hheight⟩ := h.retained height hstart (by omega) hretains
  obtain ⟨x, hAfork, hBfork⟩ := hfork.agree
  have hagree : AgreeAt A B r.height := by
    refine (hA.agreeAt hr ha).mpr ((hA r hr ha).of_agree hAfork hBfork ?_)
    rw [hheight]
    exact_mod_cast hle
  rcases hresume with ⟨-, hnone⟩ | ⟨q, hq, hqa, hqagree, hresume, hmax⟩
  · exact absurd hagree (hnone r hr ha)
  · have hrq := hmax r hr ha hagree
    have hqf := hfork.last q.height hqagree
    omega

theorem Covers.resumesNear (h : Covers accountId start s) (hA : TipsOn A accountId s.db)
    {fork : Nat} (hfork : ForkAt A B fork) (hstart : start ≤ fork) (htip : fork < s.next)
    {resumeHeight : Nat} (hresume : ResumesAfterFork A B accountId s.db resumeHeight) :
    ResumesNear start s fork resumeHeight := by
  constructor
  · intro hrecent
    have := h.le_resume hA hfork htip hresume hstart (Nat.le_refl _) (Or.inl hrecent)
    omega
  · rintro - ⟨k, hk, hkf⟩
    -- the greatest multiple of the interval up to the fork is retained
    have hretains : s.Retains (500 * (fork / 500)) := Or.inr (by omega)
    have := h.le_resume hA hfork htip hresume (by omega) (by omega) hretains
    omega

/-- In a run that records the blocks of an account from `start` on, with pruning at heights that were
    reached, rollbacks and checks in between: a check after a reorganization of the recorded blocks
    returns, and resumes right after the fork when it is one of the last 1000 blocks before the
    greatest height pruned at, and otherwise less than 500 blocks below it when a multiple of 500
    was scanned up to it; and pruning at a height keeps the rows of the last 1000 blocks before
    it. -/
theorem handleReorgs_afterPruning (accountId : AccountId) (start : Nat) (db : Db)
    (hnone : ∀ r ∈ db.scannedTipBlocks.rows, r.accountId ≠ accountId) (as : List TipAction)
    (s : TipScan)
    (hrun : Transition.run (TipScan.step accountId start) (TipScan.init db start) as = some s) :
    (∀ (prev : FixedHash → FixedHash) (A B : HashChain prev) (fork : Nat),
      TipsOn A accountId s.db → ForkAt A B fork → start ≤ fork →
      (∃ r ∈ s.db.scannedTipBlocks.rows, r.accountId = accountId ∧ (fork : Int) < r.height) →
      ∀ now,
        (∃ result db', handleReorgs (headersOf B) accountId none now ⟨s.db, none⟩ =
          .ok result ⟨db', none⟩) ∧
        ∀ webhookConfig budget result c',
          handleReorgs (headersOf B) accountId webhookConfig now ⟨s.db, budget⟩ = .ok result c' →
            ResumesNear start s fork result.resumeHeight) ∧
    ∀ height s', s.step accountId start (.prune height) = some s' →
      ∀ r ∈ s.db.scannedTipBlocks.rows, height ≤ r.height + 1000 →
        r ∈ s'.db.scannedTipBlocks.rows := by
  have hcovers : Covers accountId start s :=
    Transition.inv_of_steps (fun _ _ _ h hstep => h.step hstep) (Covers.init hnone) hrun
  refine ⟨fun prev A B fork hA hfork hstart htip now => ⟨?_, fun webhookConfig budget result c'
    h => ?_⟩, fun height s' hstep r hr hrecent => ?_⟩
  · obtain ⟨blocks, hblocks⟩ := hA.read
    exact handleReorgs_returns hblocks (fun height => ⟨_, rfl⟩)
  · obtain ⟨r, hr, ha, hlt⟩ := htip
    have hnext := (hcovers.bounds r hr ha).2.1
    exact hcovers.resumesNear hA hfork hstart (by omega) ((handleReorgs_ok h).resumesAfterFork hA)
  · obtain ⟨htop, hs'⟩ := Option.ite_none_right_eq_some.mp hstep
    cases hs'
    refine (mem_pruneScannedTipBlocks (Nat.lt_of_lt_of_le htop hcovers.top)).mpr ⟨hr, ?_⟩
    rintro ⟨-, hnonneg, hold, -⟩
    omega

/-- Blocks 5 to 8, pruned at 8 and with block 8 rolled back and scanned again. -/
def scanToEight : List TipAction :=
  [.insert 105, .insert 106, .insert 107, .insert 999, .prune 8, .rollback 8 none 0, .insert 108]

theorem handleReorgs_afterPruning_example : ∃ s,
    Transition.run (TipScan.step 1 5) (TipScan.init .empty 5) scanToEight = some s ∧
      ∀ now, (∃ result db', handleReorgs (headersOf forkedChain) 1 none now ⟨s.db, none⟩ =
          .ok result ⟨db', none⟩) ∧
        ∀ webhookConfig budget result c',
          handleReorgs (headersOf forkedChain) 1 webhookConfig now ⟨s.db, budget⟩ =
            .ok result c' → ResumesNear 5 s 6 result.resumeHeight := by
  obtain ⟨s, hrun, hq⟩ := Transition.exists_run_of_any (f := TipScan.step 1 5)
    (s := TipScan.init .empty 5) (l := scanToEight)
    (q := fun s => decide ((∀ r ∈ s.db.scannedTipBlocks.rows, r.accountId = 1 →
      exampleChain.Has r.height r.hash) ∧
      ∃ r ∈ s.db.scannedTipBlocks.rows, r.accountId = 1 ∧ ((6 : Nat) : Int) < r.height))
    (by decide +kernel)
  obtain ⟨htips, htip⟩ := of_decide_eq_true hq
  have hfork : ForkAt exampleChain forkedChain 6 := by
    refine ⟨⟨106, by decide, by decide⟩, fun height hagree => ?_⟩
    obtain ⟨x, hA, hB⟩ := hagree
    by_contra hlt
    have hseven : exampleChain.Has 7 107 ∧ ¬forkedChain.Has 7 107 := by decide
    exact HashChain.not_has_above hseven.1 hseven.2 hA (by omega) hB
  exact ⟨s, hrun, (handleReorgs_afterPruning 1 5 .empty (by decide) scanToEight s hrun).1
    exampleParent exampleChain forkedChain 6 htips hfork (by decide) htip⟩

end Chains

end TipScan

end MinotariWallet
