import MinotariWallet.Lib.HashChain
import MinotariWallet.Scan.Rules

set_option autoImplicit false

/-! # What `handle_reorgs` does

`handle_reorgs` walks down the recorded blocks until the node has one of them, and rolls back what
lies above. Where the recorded blocks and the node's are hash-linked, the block that it stops at is
the last one that they share. -/

namespace MinotariWallet

open Sql Exec

/-! ## The recorded blocks -/

section Recorded

variable {db : Db} {accountId : AccountId} {blocks : List ScannedTipBlock}

/-- What is read from a row. -/
def ScannedTipBlockRow.block (r : ScannedTipBlockRow) : ScannedTipBlock :=
  ⟨r.id, r.accountId, r.height.toNat, r.hash⟩

theorem toScannedTipBlock_ok {r : ScannedTipBlockRow} {block : ScannedTipBlock} :
    r.toScannedTipBlock = .ok block ↔ 0 ≤ r.height ∧ block = r.block := by
  unfold ScannedTipBlockRow.toScannedTipBlock
  split
  · next hneg => simp [hneg]
  · next hneg =>
      simp only [not_lt] at hneg
      simp [hneg, ScannedTipBlockRow.block, eq_comm]

/-- The rows of the account are read, the highest first, if none of them has a negative height. -/
theorem getScannedTipBlocksByAccount_ok :
    db.getScannedTipBlocksByAccount accountId = .ok blocks ↔
      (∀ r ∈ db.scannedTipBlocks.rows, r.accountId = accountId → 0 ≤ r.height) ∧
        blocks = (orderByDesc (·.height) (db.scannedTipBlocks.select
          (fun r => r.accountId == accountId))).map (·.block) := by
  unfold Db.getScannedTipBlocksByAccount
  rw [mapM_ok_iff_map (fun _ _ => toScannedTipBlock_ok)]
  simp only [mem_orderByDesc, Table.mem_select, beq_iff_eq, and_imp]

theorem mem_scannedTipBlocks (h : db.getScannedTipBlocksByAccount accountId = .ok blocks)
    {b : ScannedTipBlock} : b ∈ blocks ↔
      ∃ r ∈ db.scannedTipBlocks.rows, r.accountId = accountId ∧ b = r.block := by
  rw [(getScannedTipBlocksByAccount_ok.mp h).2]
  simp only [List.mem_map, mem_orderByDesc, Table.mem_select, beq_iff_eq, and_assoc]
  constructor
  · rintro ⟨r, hr, ha, rfl⟩
    exact ⟨r, hr, ha, rfl⟩
  · rintro ⟨r, hr, ha, rfl⟩
    exact ⟨r, hr, ha, rfl⟩

theorem scannedTipBlocks_nonneg (h : db.getScannedTipBlocksByAccount accountId = .ok blocks)
    {r : ScannedTipBlockRow} (hr : r ∈ db.scannedTipBlocks.rows) (ha : r.accountId = accountId) :
    (r.block.height : Int) = r.height :=
  Int.toNat_of_nonneg ((getScannedTipBlocksByAccount_ok.mp h).1 r hr ha)

theorem scannedTipBlocks_sorted (h : db.getScannedTipBlocksByAccount accountId = .ok blocks) :
    blocks.Pairwise (fun x y => y.height ≤ x.height) := by
  rw [(getScannedTipBlocksByAccount_ok.mp h).2, List.pairwise_map]
  exact (sorted_orderByDesc (fun r : ScannedTipBlockRow => r.height) _).imp
    (fun hle => Int.toNat_le_toNat hle)

/-- The first block read is the highest. -/
theorem scannedTipBlocks_le_first {first : ScannedTipBlock} {rest : List ScannedTipBlock}
    (h : db.getScannedTipBlocksByAccount accountId = .ok (first :: rest)) {r : ScannedTipBlockRow}
    (hr : r ∈ db.scannedTipBlocks.rows) (ha : r.accountId = accountId) :
    r.height ≤ first.height := by
  rw [← scannedTipBlocks_nonneg h hr ha]
  have hle : r.block.height ≤ first.height := by
    rcases List.mem_cons.mp ((mem_scannedTipBlocks h).mpr ⟨r, hr, ha, rfl⟩) with heq | hk
    · rw [heq]
    · exact (List.pairwise_cons.mp (scannedTipBlocks_sorted h)).1 _ hk
  exact_mod_cast hle

end Recorded

/-! ## The walk -/

section Walk

variable {getHeaderByHeight : HeaderSource} {blocks : List ScannedTipBlock}

/-- The node has the block on its chain. -/
def OnNode (getHeaderByHeight : HeaderSource) (b : ScannedTipBlock) : Prop :=
  ∃ header, getHeaderByHeight b.height = .ok (some header) ∧ header.hash = b.hash

/-- The walk passes the blocks that the node does not have and stops at the first that it has. -/
theorem findForkPoint_ok {resumeHeight : Nat} {isReorgDetected : Bool}
    (h : findForkPoint getHeaderByHeight blocks = .ok (resumeHeight, isReorgDetected)) :
    ∃ gone kept, blocks = gone ++ kept ∧ (∀ b ∈ gone, ¬OnNode getHeaderByHeight b) ∧
      (isReorgDetected = true ↔ gone ≠ []) ∧
      ((kept = [] ∧ resumeHeight = 0) ∨
        ∃ b rest, kept = b :: rest ∧ OnNode getHeaderByHeight b ∧ resumeHeight = b.height + 1) := by
  induction blocks generalizing resumeHeight isReorgDetected with
  | nil =>
      cases h
      exact ⟨[], [], rfl, by simp, by simp, Or.inl ⟨rfl, rfl⟩⟩
  | cons b rest ih =>
      -- a block that is not on the node goes before those that the rest of the walk passes
      have hpass : ¬OnNode getHeaderByHeight b →
          (∃ d, findForkPoint getHeaderByHeight rest = .ok (resumeHeight, d)) →
          isReorgDetected = true →
          ∃ gone kept, b :: rest = gone ++ kept ∧ (∀ x ∈ gone, ¬OnNode getHeaderByHeight x) ∧
            (isReorgDetected = true ↔ gone ≠ []) ∧
            ((kept = [] ∧ resumeHeight = 0) ∨ ∃ x tail, kept = x :: tail ∧
              OnNode getHeaderByHeight x ∧ resumeHeight = x.height + 1) := by
        rintro hnot ⟨d, hrest⟩ hdetected
        obtain ⟨gone, kept, rfl, hgone, -, hkept⟩ := ih hrest
        refine ⟨b :: gone, kept, rfl, ?_, by simp [hdetected], hkept⟩
        intro x hx
        rcases List.mem_cons.mp hx with rfl | hx
        · exact hnot
        · exact hgone x hx
      unfold findForkPoint at h
      cases hb : getHeaderByHeight b.height with
      | error e => simp [hb, bind, Except.bind] at h
      | ok header =>
          cases hrest : findForkPoint getHeaderByHeight rest with
          | error e =>
              cases header with
              | none => simp [hb, hrest, bind, Except.bind] at h
              | some header =>
                  by_cases hhash : header.hash = b.hash
                  · simp only [hb, bind, Except.bind, if_pos hhash, pure, Except.pure,
                      Except.ok.injEq, Prod.mk.injEq] at h
                    obtain ⟨rfl, rfl⟩ := h
                    exact ⟨[], b :: rest, rfl, by simp, by simp,
                      Or.inr ⟨b, rest, rfl, ⟨header, hb, hhash⟩, rfl⟩⟩
                  · simp [hb, hrest, hhash, bind, Except.bind] at h
          | ok found =>
              obtain ⟨height, d⟩ := found
              cases header with
              | none =>
                  simp only [hb, hrest, bind, Except.bind, pure, Except.pure, Except.ok.injEq,
                    Prod.mk.injEq] at h
                  obtain ⟨rfl, rfl⟩ := h
                  refine hpass ?_ ⟨d, hrest⟩ rfl
                  rintro ⟨header, hsome, -⟩
                  simp [hb] at hsome
              | some header =>
                  by_cases hhash : header.hash = b.hash
                  · simp only [hb, bind, Except.bind, if_pos hhash, pure, Except.pure,
                      Except.ok.injEq, Prod.mk.injEq] at h
                    obtain ⟨rfl, rfl⟩ := h
                    exact ⟨[], b :: rest, rfl, by simp, by simp,
                      Or.inr ⟨b, rest, rfl, ⟨header, hb, hhash⟩, rfl⟩⟩
                  · simp only [hb, hrest, bind, Except.bind, if_neg hhash, pure, Except.pure,
                      Except.ok.injEq, Prod.mk.injEq] at h
                    obtain ⟨rfl, rfl⟩ := h
                    refine hpass ?_ ⟨d, hrest⟩ rfl
                    rintro ⟨header', hsome, hsame⟩
                    simp only [hb, Except.ok.injEq, Option.some.injEq] at hsome
                    subst hsome
                    exact hhash hsame

theorem findForkPoint_isOk (blocks : List ScannedTipBlock)
    (h : ∀ height, ∃ header, getHeaderByHeight height = .ok header) :
    ∃ found, findForkPoint getHeaderByHeight blocks = .ok found := by
  induction blocks with
  | nil => exact ⟨_, rfl⟩
  | cons b rest ih =>
      obtain ⟨header, hb⟩ := h b.height
      obtain ⟨found, hrest⟩ := ih
      unfold findForkPoint
      cases header with
      | none => simp [hb, hrest, bind, Except.bind, pure, Except.pure]
      | some header =>
          by_cases hhash : header.hash = b.hash
          · simp [hb, hhash, bind, Except.bind, pure, Except.pure]
          · simp [hb, hrest, hhash, bind, Except.bind, pure, Except.pure]

end Walk

/-! ## The check -/

section Check

variable {getHeaderByHeight : HeaderSource} {accountId : AccountId}
  {webhookConfig : Option WebhookTriggerConfig} {now : Timestamp} {c c' : Conn Db}

/-- What a check that returns finds and leaves. -/
inductive ReorgCheck (getHeaderByHeight : HeaderSource) (accountId : AccountId) (now : Timestamp)
    (db : Db) : ReorgResult → Db → Prop where
  | nothingRecorded (h : db.getScannedTipBlocksByAccount accountId = .ok []) :
      ReorgCheck getHeaderByHeight accountId now db ⟨0, none⟩ db
  | onChain {first : ScannedTipBlock} {rest : List ScannedTipBlock} {height : Nat}
      (h : db.getScannedTipBlocksByAccount accountId = .ok (first :: rest))
      (hfork : findForkPoint getHeaderByHeight (first :: rest) = .ok (height, false)) :
      ReorgCheck getHeaderByHeight accountId now db ⟨first.height + 1, none⟩ db
  | rolledBack {blocks : List ScannedTipBlock} {height : Nat} {info : ReorgInformation} {db' : Db}
      (h : db.getScannedTipBlocksByAccount accountId = .ok blocks)
      (hfork : findForkPoint getHeaderByHeight blocks = .ok (height, true))
      (hrolled : RolledBack accountId height now db db') :
      ReorgCheck getHeaderByHeight accountId now db ⟨height, some info⟩ db'

variable {db db' : Db} {result : ReorgResult}

/-- A check resumes after a recorded block, or at 0. -/
theorem ReorgCheck.resume (h : ReorgCheck getHeaderByHeight accountId now db result db') :
    result.resumeHeight = 0 ∨ ∃ r ∈ db.scannedTipBlocks.rows, r.accountId = accountId ∧
      (result.resumeHeight : Int) = r.height + 1 := by
  have hrow : ∀ {blocks b}, db.getScannedTipBlocksByAccount accountId = .ok blocks → b ∈ blocks →
      ∃ r ∈ db.scannedTipBlocks.rows, r.accountId = accountId ∧
        ((b.height + 1 : Nat) : Int) = r.height + 1 := by
    intro blocks b hblocks hb
    obtain ⟨r, hr, ha, rfl⟩ := (mem_scannedTipBlocks hblocks).mp hb
    refine ⟨r, hr, ha, ?_⟩
    rw [← scannedTipBlocks_nonneg hblocks hr ha]
    exact Int.natCast_succ _
  cases h with
  | nothingRecorded hblocks => exact Or.inl rfl
  | onChain hblocks hfork => exact Or.inr (hrow hblocks List.mem_cons_self)
  | rolledBack hblocks hfork hrolled =>
      obtain ⟨gone, kept, rfl, -, -, ⟨-, hzero⟩ | ⟨b, rest, rfl, -, hheight⟩⟩ :=
        findForkPoint_ok hfork
      · exact Or.inl hzero
      · subst hheight
        exact Or.inr (hrow hblocks (by simp))

/-- A check that returns has read the recorded blocks, so none has a negative height. -/
theorem ReorgCheck.nonneg (h : ReorgCheck getHeaderByHeight accountId now db result db')
    {r : ScannedTipBlockRow} (hr : r ∈ db.scannedTipBlocks.rows) (ha : r.accountId = accountId) :
    0 ≤ r.height := by
  cases h with
  | nothingRecorded hblocks => exact (getScannedTipBlocksByAccount_ok.mp hblocks).1 r hr ha
  | onChain hblocks hfork => exact (getScannedTipBlocksByAccount_ok.mp hblocks).1 r hr ha
  | rolledBack hblocks hfork hrolled =>
      exact (getScannedTipBlocksByAccount_ok.mp hblocks).1 r hr ha

/-- It leaves recorded blocks of the account only below where it resumes, and those of other accounts
    alone. -/
theorem ReorgCheck.tips (h : ReorgCheck getHeaderByHeight accountId now db result db')
    {r : ScannedTipBlockRow} (hr : r ∈ db'.scannedTipBlocks.rows) :
    r ∈ db.scannedTipBlocks.rows ∧ (r.accountId = accountId → r.height < result.resumeHeight) := by
  cases h with
  | nothingRecorded hblocks =>
      refine ⟨hr, fun ha => ?_⟩
      have := (mem_scannedTipBlocks hblocks).mpr ⟨r, hr, ha, rfl⟩
      cases this
  | onChain hblocks hfork =>
      refine ⟨hr, fun ha => ?_⟩
      have hle := scannedTipBlocks_le_first hblocks hr ha
      push_cast
      omega
  | rolledBack hblocks hfork hrolled =>
      rename_i height _
      rw [hrolled.tips, Db.deleteScannedTipBlocksFromHeight, AutoTable.mem_deleteWhere] at hr
      refine ⟨hr.1, fun ha => ?_⟩
      have hlt : r.height < asI64 height := by simpa [ha] using hr.2
      exact Int.lt_of_lt_of_le hlt (asI64_le height)

theorem handleReorgs_ok
    (h : handleReorgs getHeaderByHeight accountId webhookConfig now c = .ok result c') :
    ReorgCheck getHeaderByHeight accountId now c.store result c'.store := by
  unfold handleReorgs at h
  obtain ⟨blocks, c₁, hread, h⟩ := bind_ok.mp h
  obtain ⟨hblocks, hstore⟩ := tryQuery_ok hread
  cases blocks with
  | nil =>
      obtain ⟨rfl, rfl⟩ := pure_ok.mp h
      rw [hstore]
      exact .nothingRecorded hblocks
  | cons first rest =>
      obtain ⟨⟨height, isReorgDetected⟩, c₂, hlift, h⟩ := bind_ok.mp h
      obtain ⟨hfork, rfl⟩ := lift_ok hlift
      cases isReorgDetected with
      | false =>
          obtain ⟨rfl, rfl⟩ := pure_ok.mp h
          rw [hstore]
          exact .onChain hblocks hfork
      | true =>
          obtain ⟨info, c₃, htransaction, h⟩ := bind_ok.mp h
          obtain ⟨rfl, rfl⟩ := pure_ok.mp h
          obtain ⟨c₄, hrun, hcommit⟩ := inTransaction_ok htransaction
          have hrolled := rollbackFromHeight_rolledBack hrun
          rw [hstore] at hrolled
          rw [hcommit]
          exact .rolledBack hblocks hfork hrolled

/-- A check that fails leaves the database as it was. -/
theorem handleReorgs_error {e : WalletDbError}
    (h : handleReorgs getHeaderByHeight accountId webhookConfig now c = .error e c') :
    c'.store = c.store := by
  unfold handleReorgs at h
  rcases bind_error.mp h with hread | ⟨blocks, c₁, hread, h⟩
  · exact stmt_error hread
  rw [← (tryQuery_ok hread).2]
  cases blocks with
  | nil => cases h
  | cons first rest =>
      rcases bind_error.mp h with hlift | ⟨⟨height, isReorgDetected⟩, c₂, hlift, h⟩
      · rw [lift_error hlift]
      obtain ⟨-, rfl⟩ := lift_ok hlift
      cases isReorgDetected with
      | false => cases h
      | true =>
          rcases bind_error.mp h with htransaction | ⟨info, c₃, -, h⟩
          · exact inTransaction_error htransaction
          · cases h

theorem reverseBalanceChange_returns (original : Db → Option Id)
    (reversal : Option Id → BalanceChange) :
    Returns (fun _ => True) (reverseBalanceChange original reversal) (fun _ _ => True) := by
  refine Returns.bind (Q := fun _ _ => True) (Returns.query (fun _ _ => trivial))
    (fun original => ?_)
  have hinsert : Returns (fun _ => True)
      (do let _ ← insert (·.insertBalanceChange (reversal original)) : DbM Unit)
      (fun _ _ => True) :=
    Returns.bind (Q := fun _ _ => True) (Returns.insert (fun _ _ => trivial))
      (fun _ => Returns.pure (fun _ _ => trivial))
  cases original with
  | none => exact hinsert
  | some id =>
      exact Returns.bind (Q := fun _ _ => True) (Returns.update (fun _ _ => trivial))
        (fun _ => hinsert)

/-- Without webhooks and faults a rollback returns, if the recorded blocks can be read. -/
theorem rollbackFromHeight_returns {db : Db} {blocks : List ScannedTipBlock} (height : Nat)
    (h : db.getScannedTipBlocksByAccount accountId = .ok blocks) :
    Returns (fun s => s = db) (rollbackFromHeight accountId height none now) (fun _ _ => True) := by
  have hlog : ∀ events : List WalletEvent, ∀ logged : List (Id × WalletEvent),
      Returns (fun _ => True) (events.foldlM (logWalletEvent accountId) logged)
        (fun _ _ => True) := by
    intro events logged
    refine Returns.foldlM _ _ (fun b x => ?_)
    exact Returns.bind (Q := fun _ _ => True) (Returns.insert (fun _ _ => trivial))
      (fun _ => Returns.pure (fun _ _ => trivial))
  unfold rollbackFromHeight
  refine Returns.bind (Q := fun _ _ => True)
    (Returns.tryQuery (fun s hs => ⟨blocks, hs ▸ h, trivial⟩)) (fun tipBlocks => ?_)
  refine Returns.bind (hlog _ _) (fun events => ?_)
  refine Returns.bind (Q := fun _ _ => True) (Returns.query (fun _ _ => trivial)) (fun affected => ?_)
  refine Returns.bind (hlog _ _) (fun events => ?_)
  refine Returns.bind (Q := fun _ _ => True) ?_ (fun _ => ?_)
  · exact Returns.ite (fun _ => Returns.pure (fun _ _ => trivial))
      (fun _ => Returns.update (fun _ _ => trivial))
  refine Returns.bind (hlog _ _) (fun events => ?_)
  refine Returns.bind (Q := fun _ _ => True) ?_ (fun _ => ?_)
  · refine Returns.bind (Q := fun _ _ => True) (Returns.query (fun _ _ => trivial)) (fun rows => ?_)
    exact Returns.bind (Returns.forM rows (fun row => reverseBalanceChange_returns _ _))
      (fun _ => Returns.update (fun _ _ => trivial))
  refine Returns.bind (Q := fun _ _ => True) ?_ (fun _ => ?_)
  · refine Returns.bind (Q := fun _ _ => True) (Returns.query (fun _ _ => trivial)) (fun rows => ?_)
    exact Returns.bind (Returns.forM rows (fun row => reverseBalanceChange_returns _ _))
      (fun _ => Returns.update (fun _ _ => trivial))
  refine Returns.bind (Q := fun _ _ => True) (Returns.update (fun _ _ => trivial)) (fun _ => ?_)
  refine Returns.bind (Q := fun _ _ => True) ?_ (fun _ => ?_)
  · refine Returns.bind (Q := fun _ _ => True) (Returns.query (fun _ _ => trivial)) (fun rows => ?_)
    exact Returns.forM _ (fun row => Returns.forM _ (fun _ => Returns.update (fun _ _ => trivial)))
  refine Returns.bind (Q := fun _ _ => True) ?_ (fun reorganized => ?_)
  · refine Returns.bind (Q := fun _ _ => True) (Returns.query (fun _ _ => trivial)) (fun rows => ?_)
    exact Returns.foldlM _ _ (fun updated row =>
      Returns.bind (Q := fun _ _ => True) (Returns.update (fun _ _ => trivial))
        (fun _ => Returns.pure (fun _ _ => trivial)))
  refine Returns.bind (Q := fun _ _ => True) ?_ (fun _ => ?_)
  · refine Returns.bind (Q := fun _ _ => True) (Returns.query (fun _ _ => trivial)) (fun rows => ?_)
    exact Returns.forM _ (fun row => Returns.forM _ (fun _ => Returns.update (fun _ _ => trivial)))
  refine Returns.bind (Q := fun _ _ => True) (Returns.update (fun _ _ => trivial)) (fun _ => ?_)
  exact Returns.bind (Q := fun _ _ => True) (Returns.pure (fun _ _ => trivial))
    (fun _ => Returns.pure (fun _ _ => trivial))

/-- Without webhooks and faults a check returns, if the recorded blocks can be read and the node
    answers. -/
theorem handleReorgs_returns {db : Db} {blocks : List ScannedTipBlock}
    (h : db.getScannedTipBlocksByAccount accountId = .ok blocks)
    (hnode : ∀ height, ∃ header, getHeaderByHeight height = .ok header) :
    ∃ result db', handleReorgs getHeaderByHeight accountId none now ⟨db, none⟩ =
      .ok result ⟨db', none⟩ := by
  have hreturns : Returns (fun s => s = db) (handleReorgs getHeaderByHeight accountId none now)
      (fun _ _ => True) := by
    refine Returns.bind (Q := fun read s => read = blocks ∧ s = db)
      (Returns.tryQuery (fun s hs => ⟨blocks, hs ▸ h, rfl, hs⟩)) (fun read => ?_)
    cases read with
    | nil => exact Returns.pure (fun _ _ => trivial)
    | cons first rest =>
        obtain ⟨⟨height, isReorgDetected⟩, hfork⟩ :=
          findForkPoint_isOk (first :: rest) hnode
        refine Returns.bind (Q := fun _ s => s = db) (Returns.lift hfork (fun s hs => hs.2))
          (fun found => ?_)
        refine Returns.ite (fun _ => ?_) (fun _ => Returns.pure (fun _ _ => trivial))
        exact Returns.bind (Returns.inTransaction (rollbackFromHeight_returns found.1 h))
          (fun _ => Returns.pure (fun _ _ => trivial))
  obtain ⟨result, db', hrun, -⟩ := hreturns db rfl
  exact ⟨result, db', hrun⟩

end Check

/-! ## Chains -/

section Chains

variable {prev : FixedHash → FixedHash} {A B : HashChain prev} {accountId : AccountId} {db db' : Db}

/-- What a node on the chain answers to `get_header_by_height`. -/
def headersOf (B : HashChain prev) : HeaderSource := fun height =>
  .ok ((B.hashAt height).map (fun hash => ⟨height, hash⟩))

theorem onNode_headersOf {b : ScannedTipBlock} :
    OnNode (headersOf B) b ↔ B.Has b.height b.hash := by
  rw [HashChain.has_natCast]
  unfold OnNode headersOf
  cases hb : B.hashAt b.height with
  | none => simp
  | some x => simp

/-- The recorded blocks of the account, and its undeleted outputs and inputs, are on the chain. -/
structure RecordedOn (A : HashChain prev) (accountId : AccountId) (db : Db) : Prop where
  tips : ∀ r ∈ db.scannedTipBlocks.rows, r.accountId = accountId → A.Has r.height r.hash
  outputs : ∀ o ∈ db.outputs.rows, o.active = true → o.accountId = accountId →
    A.Has o.minedInBlockHeight o.minedInBlockHash
  inputs : ∀ i ∈ db.inputs.rows, i.active = true → i.accountId = accountId →
    A.Has i.minedInBlockHeight i.minedInBlockHash

/-- The two chains have the same block at the height. -/
def AgreeAt (A B : HashChain prev) (height : Int) : Prop := ∃ x, A.Has height x ∧ B.Has height x

/-- The recorded blocks of the account are on the chain. -/
def TipsOn (A : HashChain prev) (accountId : AccountId) (db : Db) : Prop :=
  ∀ r ∈ db.scannedTipBlocks.rows, r.accountId = accountId → A.Has r.height r.hash

theorem TipsOn.agreeAt (h : TipsOn A accountId db) {r : ScannedTipBlockRow}
    (hr : r ∈ db.scannedTipBlocks.rows) (ha : r.accountId = accountId) :
    AgreeAt A B r.height ↔ B.Has r.height r.hash := by
  constructor
  · rintro ⟨x, hA, hB⟩
    rwa [(h r hr ha).unique hA]
  · intro hB
    exact ⟨r.hash, h r hr ha, hB⟩

/-- The recorded blocks of an account on a chain can be read. -/
theorem TipsOn.read (h : TipsOn A accountId db) :
    ∃ blocks, db.getScannedTipBlocksByAccount accountId = .ok blocks :=
  ⟨_, getScannedTipBlocksByAccount_ok.mpr ⟨fun r hr ha => (h r hr ha).1, rfl⟩⟩

/-- Where the walk stops: `resumeHeight` is past the highest recorded block that the two chains
    share, 0 if they share none. -/
def ResumesAfterFork (A B : HashChain prev) (accountId : AccountId) (db : Db)
    (resumeHeight : Nat) : Prop :=
  (resumeHeight = 0 ∧
    ∀ r ∈ db.scannedTipBlocks.rows, r.accountId = accountId → ¬AgreeAt A B r.height) ∨
  ∃ r ∈ db.scannedTipBlocks.rows, r.accountId = accountId ∧ AgreeAt A B r.height ∧
    (resumeHeight : Int) = r.height + 1 ∧
    ∀ r' ∈ db.scannedTipBlocks.rows, r'.accountId = accountId → AgreeAt A B r'.height →
      r'.height ≤ r.height

/-- The walk stops at the fork, and it passes a block exactly when one is not on the node. -/
theorem findForkPoint_fork (h : TipsOn A accountId db) {blocks : List ScannedTipBlock}
    (hblocks : db.getScannedTipBlocksByAccount accountId = .ok blocks) {height : Nat}
    {isReorgDetected : Bool}
    (hfork : findForkPoint (headersOf B) blocks = .ok (height, isReorgDetected)) :
    ResumesAfterFork A B accountId db height ∧
      (isReorgDetected = true ↔ ∃ r ∈ db.scannedTipBlocks.rows, r.accountId = accountId ∧
        ¬B.Has r.height r.hash) := by
  obtain ⟨gone, kept, hsplit, hgone, hdetected, hkept⟩ := findForkPoint_ok hfork
  have hrow : ∀ b, b ∈ blocks ↔ ∃ r ∈ db.scannedTipBlocks.rows, r.accountId = accountId ∧
      b = r.block := fun b => mem_scannedTipBlocks hblocks
  have hnode : ∀ r ∈ db.scannedTipBlocks.rows, r.accountId = accountId →
      (OnNode (headersOf B) r.block ↔ B.Has r.height r.hash) := by
    intro r hr ha
    rw [onNode_headersOf, scannedTipBlocks_nonneg hblocks hr ha]
    rfl
  have hbelow : ∀ b rest, kept = b :: rest → ∀ x ∈ kept, x.height ≤ b.height := by
    rintro b rest rfl x hx
    have hsorted := scannedTipBlocks_sorted hblocks
    rw [hsplit] at hsorted
    rcases List.mem_cons.mp hx with rfl | hx
    · exact Nat.le_refl _
    · exact (List.pairwise_cons.mp (List.pairwise_append.mp hsorted).2.1).1 x hx
  -- below the block it stops at everything is shared, so what is not shared was passed
  have hpassed : ∀ r ∈ db.scannedTipBlocks.rows, r.accountId = accountId →
      ¬B.Has r.height r.hash → r.block ∈ gone := by
    intro r hr ha hnot
    have hmem : r.block ∈ gone ++ kept := hsplit ▸ (hrow r.block).mpr ⟨r, hr, ha, rfl⟩
    rcases List.mem_append.mp hmem with hg | hk
    · exact hg
    · rcases hkept with ⟨rfl, -⟩ | ⟨b, rest, rfl, hb, -⟩
      · cases hk
      · obtain ⟨s, hs, hsa, rfl⟩ := (hrow b).mp (by rw [hsplit]; simp)
        have hle : r.height ≤ s.height := by
          rw [← scannedTipBlocks_nonneg hblocks hr ha, ← scannedTipBlocks_nonneg hblocks hs hsa]
          exact_mod_cast hbelow _ _ rfl _ hk
        exact absurd ((h r hr ha).of_agree (h s hs hsa) ((hnode s hs hsa).mp hb) hle) hnot
  refine ⟨?_, ?_⟩
  · rcases hkept with ⟨rfl, rfl⟩ | ⟨b, rest, rfl, hb, rfl⟩
    · refine Or.inl ⟨rfl, fun r hr ha hagree => ?_⟩
      have hmem : r.block ∈ gone := by
        simpa [hsplit] using (hrow r.block).mpr ⟨r, hr, ha, rfl⟩
      exact hgone _ hmem ((hnode r hr ha).mpr ((h.agreeAt hr ha).mp hagree))
    · obtain ⟨s, hs, hsa, rfl⟩ := (hrow b).mp (by rw [hsplit]; simp)
      refine Or.inr ⟨s, hs, hsa, (h.agreeAt hs hsa).mpr ((hnode s hs hsa).mp hb), ?_, ?_⟩
      · rw [← scannedTipBlocks_nonneg hblocks hs hsa]
        exact Int.natCast_succ _
      · intro r hr ha hagree
        have hB := (h.agreeAt hr ha).mp hagree
        have hmem : r.block ∈ gone ++ s.block :: rest :=
          hsplit ▸ (hrow r.block).mpr ⟨r, hr, ha, rfl⟩
        rcases List.mem_append.mp hmem with hg | hk
        · exact absurd ((hnode r hr ha).mpr hB) (hgone _ hg)
        · rw [← scannedTipBlocks_nonneg hblocks hr ha, ← scannedTipBlocks_nonneg hblocks hs hsa]
          have hsorted := scannedTipBlocks_sorted hblocks
          rw [hsplit] at hsorted
          have htail := (List.pairwise_append.mp hsorted).2.1
          rcases List.mem_cons.mp hk with heq | hk
          · rw [heq]
          · exact_mod_cast (List.pairwise_cons.mp htail).1 _ hk
  · rw [hdetected]
    constructor
    · intro hne
      obtain ⟨b, rest, rfl⟩ := List.exists_cons_of_ne_nil hne
      obtain ⟨r, hr, ha, rfl⟩ := (hrow b).mp (by rw [hsplit]; simp)
      exact ⟨r, hr, ha, fun hB => hgone _ List.mem_cons_self ((hnode r hr ha).mpr hB)⟩
    · rintro ⟨r, hr, ha, hnot⟩
      exact List.ne_nil_of_mem (hpassed r hr ha hnot)

/-- Where a check resumes that returns. -/
theorem ReorgCheck.resumesAfterFork {now : Timestamp} {result : ReorgResult}
    (hA : TipsOn A accountId db) (h : ReorgCheck (headersOf B) accountId now db result db') :
    ResumesAfterFork A B accountId db result.resumeHeight := by
  cases h with
  | nothingRecorded hblocks =>
      refine Or.inl ⟨rfl, fun r hr ha => ?_⟩
      have := (mem_scannedTipBlocks hblocks).mpr ⟨r, hr, ha, rfl⟩
      cases this
  | onChain hblocks hfork =>
      obtain ⟨-, hdetected⟩ := findForkPoint_fork hA hblocks hfork
      simp only [Bool.false_eq_true, false_iff, not_exists, not_and, not_not] at hdetected
      -- every recorded block is shared, and the first is the highest
      obtain ⟨s, hs, hsa, rfl⟩ := (mem_scannedTipBlocks hblocks).mp List.mem_cons_self
      have hheight := scannedTipBlocks_nonneg hblocks hs hsa
      refine Or.inr ⟨s, hs, hsa, (hA.agreeAt hs hsa).mpr (hdetected s hs hsa), ?_,
        fun r hr ha _ => ?_⟩
      · rw [← hheight]
        exact Int.natCast_succ _
      · rw [← hheight]
        exact scannedTipBlocks_le_first hblocks hr ha
  | rolledBack hblocks hfork hrolled => exact (findForkPoint_fork hA hblocks hfork).1

/-- What is left of the account after a check against the node's chain `B`. -/
structure ForkFound (A B : HashChain prev) (accountId : AccountId) (db : Db) (result : ReorgResult)
    (db' : Db) : Prop where
  resume : ResumesAfterFork A B accountId db result.resumeHeight
  reported : result.reorgInformation.isSome ↔
    ∃ r ∈ db.scannedTipBlocks.rows, r.accountId = accountId ∧ ¬B.Has r.height r.hash
  tips : ∀ r, r ∈ db'.scannedTipBlocks.rows ↔ r ∈ db.scannedTipBlocks.rows ∧
    (r.accountId = accountId → r.height < result.resumeHeight)
  outputs : ∀ o, o.active = true → (o ∈ db'.outputs.rows ↔ o ∈ db.outputs.rows ∧
    (result.reorgInformation.isSome → o.accountId = accountId →
      o.minedInBlockHeight < result.resumeHeight))
  inputs : ∀ i, i.active = true → (i ∈ db'.inputs.rows ↔ i ∈ db.inputs.rows ∧
    (result.reorgInformation.isSome → i.accountId = accountId →
      i.minedInBlockHeight < result.resumeHeight))
  tipsOn : ∀ r ∈ db'.scannedTipBlocks.rows, r.accountId = accountId → B.Has r.height r.hash
  outputsOn : ∀ o ∈ db'.outputs.rows, o.active = true → o.accountId = accountId →
    (result.reorgInformation.isSome ∨ o.minedInBlockHeight < result.resumeHeight) →
    B.Has o.minedInBlockHeight o.minedInBlockHash
  inputsOn : ∀ i ∈ db'.inputs.rows, i.active = true → i.accountId = accountId →
    (result.reorgInformation.isSome ∨ i.minedInBlockHeight < result.resumeHeight) →
    B.Has i.minedInBlockHeight i.minedInBlockHash

/-- What is on `A` below the resume height is on `B`. -/
theorem ResumesAfterFork.has_below {resumeHeight : Nat}
    (h : ResumesAfterFork A B accountId db resumeHeight) {height : Int} {x : FixedHash}
    (hA : A.Has height x) (hlt : height < resumeHeight) : B.Has height x := by
  rcases h with ⟨rfl, -⟩ | ⟨r, -, -, ⟨y, hAy, hBy⟩, hresume, -⟩
  · have := hA.1
    omega
  · exact hA.of_agree hAy hBy (by omega)

/-- The height that a rollback to the fork compares with its columns. -/
theorem ResumesAfterFork.asI64_eq {resumeHeight : Nat}
    (h : ResumesAfterFork A B accountId db resumeHeight)
    (hfits : ∀ r ∈ db.scannedTipBlocks.rows, r.height < 2 ^ 63)
    (hA : RecordedOn A accountId db)
    (hmoved : ∃ r ∈ db.scannedTipBlocks.rows, r.accountId = accountId ∧ ¬B.Has r.height r.hash) :
    asI64 resumeHeight = resumeHeight := by
  refine asI64_of_lt ?_
  -- a block that is not shared is above the fork, and its height fits the column
  obtain ⟨r, hr, ha, hnot⟩ := hmoved
  have hge : (resumeHeight : Int) ≤ r.height := by
    by_contra hlt
    exact hnot (h.has_below (hA.tips r hr ha) (by omega))
  have := hfits r hr
  omega

theorem ForkFound.of_check {now : Timestamp} {result : ReorgResult} (hA : RecordedOn A accountId db)
    (hfits : ∀ r ∈ db.scannedTipBlocks.rows, r.height < 2 ^ 63)
    (h : ReorgCheck (headersOf B) accountId now db result db') :
    ForkFound A B accountId db result db' := by
  have hresume := h.resumesAfterFork hA.tips
  cases h with
  | nothingRecorded hblocks =>
      have hnone : ∀ r ∈ db.scannedTipBlocks.rows, r.accountId ≠ accountId := by
        intro r hr ha
        have := (mem_scannedTipBlocks hblocks).mpr ⟨r, hr, ha, rfl⟩
        cases this
      exact {
        resume := hresume
        reported := by
          simp only [Option.isSome_none, Bool.false_eq_true, false_iff]
          rintro ⟨r, hr, ha, -⟩
          exact hnone r hr ha
        tips := fun r => ⟨fun hr => ⟨hr, fun ha => absurd ha (hnone r hr)⟩, fun hr => hr.1⟩
        outputs := fun o _ => by simp
        inputs := fun i _ => by simp
        tipsOn := fun r hr ha => absurd ha (hnone r hr)
        outputsOn := fun o ho hactive ha hlt => by
          have hpos := (hA.outputs o ho hactive ha).1
          simp only [Option.isSome_none, Bool.false_eq_true, false_or] at hlt
          omega
        inputsOn := fun i hi hactive ha hlt => by
          have hpos := (hA.inputs i hi hactive ha).1
          simp only [Option.isSome_none, Bool.false_eq_true, false_or] at hlt
          omega }
  | onChain hblocks hfork =>
      rename_i first rest height
      obtain ⟨-, hdetected⟩ := findForkPoint_fork hA.tips hblocks hfork
      simp only [Bool.false_eq_true, false_iff, not_exists, not_and, not_not] at hdetected
      exact {
        resume := hresume
        reported := by
          simp only [Option.isSome_none, Bool.false_eq_true, false_iff]
          rintro ⟨r, hr, ha, hnot⟩
          exact hnot (hdetected r hr ha)
        tips := fun r => ⟨fun hr => ⟨hr, fun ha => by
          have := scannedTipBlocks_le_first hblocks hr ha
          push_cast
          omega⟩, fun hr => hr.1⟩
        outputs := fun o _ => by simp
        inputs := fun i _ => by simp
        tipsOn := hdetected
        outputsOn := fun o ho hactive ha hlt =>
          hresume.has_below (hA.outputs o ho hactive ha) (by simpa using hlt)
        inputsOn := fun i hi hactive ha hlt =>
          hresume.has_below (hA.inputs i hi hactive ha) (by simpa using hlt) }
  | rolledBack hblocks hfork hrolled =>
      rename_i blocks height info
      obtain ⟨-, hdetected⟩ := findForkPoint_fork hA.tips hblocks hfork
      have hmoved := hdetected.mp rfl
      have hcast := hresume.asI64_eq hfits hA hmoved
      have houtputs : ∀ o : OutputRow, o.active = true → (o ∈ db'.outputs.rows ↔
          o ∈ db.outputs.rows ∧ (o.accountId = accountId → o.minedInBlockHeight < height)) := by
        intro o hactive
        rw [hrolled.outputs, mem_setOutputsDeleted_active hactive, OutputRow.survives, hcast]
        simp [hactive]
      have hinputs : ∀ i : InputRow, i.active = true → (i ∈ db'.inputs.rows ↔
          i ∈ db.inputs.rows ∧ (i.accountId = accountId → i.minedInBlockHeight < height)) := by
        intro i hactive
        rw [hrolled.inputs, mem_setInputsDeleted_active hactive, hcast]
        simp
      have htips : ∀ r, r ∈ db'.scannedTipBlocks.rows ↔
          r ∈ db.scannedTipBlocks.rows ∧ (r.accountId = accountId → r.height < height) := by
        intro r
        rw [hrolled.tips, Db.deleteScannedTipBlocksFromHeight, AutoTable.mem_deleteWhere, hcast]
        simp
      exact {
        resume := hresume
        reported := by simpa using hmoved
        tips := htips
        outputs := fun o hactive => by simpa using houtputs o hactive
        inputs := fun i hactive => by simpa using hinputs i hactive
        tipsOn := fun r hr ha =>
          hresume.has_below (hA.tips r ((htips r).mp hr).1 ha) (((htips r).mp hr).2 ha)
        outputsOn := fun o ho hactive ha _ =>
          hresume.has_below (hA.outputs o ((houtputs o hactive).mp ho).1 hactive ha)
            (((houtputs o hactive).mp ho).2 ha)
        inputsOn := fun i hi hactive ha _ =>
          hresume.has_below (hA.inputs i ((hinputs i hactive).mp hi).1 hactive ha)
            (((hinputs i hactive).mp hi).2 ha) }

/-- `handle_reorgs` returns, and finds the fork, if the recorded blocks and what was found in them
    are on one chain. -/
theorem handleReorgs_finds_fork (A B : HashChain prev) (accountId : AccountId) (db : Db)
    (now : Timestamp) (hA : RecordedOn A accountId db)
    (hfits : ∀ r ∈ db.scannedTipBlocks.rows, r.height < 2 ^ 63) :
    (∃ result db', handleReorgs (headersOf B) accountId none now ⟨db, none⟩ =
        .ok result ⟨db', none⟩) ∧
      ∀ webhookConfig budget result c',
        handleReorgs (headersOf B) accountId webhookConfig now ⟨db, budget⟩ = .ok result c' →
          ForkFound A B accountId db result c'.store := by
  refine ⟨?_, fun webhookConfig budget result c' h => ?_⟩
  · obtain ⟨blocks, hblocks⟩ := TipsOn.read hA.tips
    exact handleReorgs_returns hblocks (fun height => ⟨_, rfl⟩)
  · exact ForkFound.of_check hA hfits (handleReorgs_ok h)

end Chains

/-! ## Two chains

Blocks 0 to 9, and a node that left that chain after block 6. -/

def exampleParent (x : FixedHash) : FixedHash := if x = 207 then 106 else x - 1

def exampleChain : HashChain exampleParent :=
  ⟨[100, 101, 102, 103, 104, 105, 106, 107, 108, 109], by decide⟩

def forkedChain : HashChain exampleParent :=
  ⟨[100, 101, 102, 103, 104, 105, 106, 207, 208], by decide⟩

/-- An output of account 1 that block `height` of `exampleChain` mined. -/
def exampleOutput (height : Nat) (id : Id) : OutputRow where
  id := id
  accountId := 1
  txId := 1000 + height
  outputHash := 500 + height
  minedInBlockHash := 100 + height
  minedInBlockHeight := height
  value := 10
  walletOutput := ⟨500 + height, 10, false, false, [], {}⟩
  minedTimestamp := 0

/-- Recorded blocks 5 and 7, and an output in each of blocks 6 and 8. -/
def scannedToSeven : Db :=
  { (Db.empty.insertScannedTipBlock 1 5 105).insertScannedTipBlock 1 7 107 with
    outputs := (AutoTable.empty.insert (exampleOutput 6)).insert (exampleOutput 8) }

/-- Recorded block 5, and an output in block 8. -/
def scannedToFive : Db :=
  { Db.empty.insertScannedTipBlock 1 5 105 with
    outputs := AutoTable.empty.insert (exampleOutput 8) }

theorem recordedOn_scannedToSeven : RecordedOn exampleChain 1 scannedToSeven where
  tips := by decide +kernel
  outputs := by decide +kernel
  inputs := by decide +kernel

/-- The block after the fork is found to be gone, and the output in it. -/
theorem handleReorgs_finds_fork_example :
    (∃ result db', handleReorgs (headersOf forkedChain) 1 none 0 ⟨scannedToSeven, none⟩ =
        .ok result ⟨db', none⟩) ∧
      ∀ webhookConfig budget result c',
        handleReorgs (headersOf forkedChain) 1 webhookConfig 0 ⟨scannedToSeven, budget⟩ =
          .ok result c' →
        ForkFound exampleChain forkedChain 1 scannedToSeven result c'.store :=
  handleReorgs_finds_fork exampleChain forkedChain 1 scannedToSeven 0 recordedOn_scannedToSeven
    (by decide +kernel)

/-- An output above the highest recorded block stays, though the node has left its block. -/
theorem outputAboveTips_kept :
    RecordedOn exampleChain 1 scannedToFive ∧
      (∀ r ∈ scannedToFive.scannedTipBlocks.rows, forkedChain.Has r.height r.hash) ∧
      ∃ result db', handleReorgs (headersOf forkedChain) 1 none 0 ⟨scannedToFive, none⟩ =
          .ok result ⟨db', none⟩ ∧
        result.resumeHeight = 6 ∧ result.reorgInformation = none ∧
        ∃ o ∈ db'.outputs.rows, o.active = true ∧ o.accountId = 1 ∧ 6 ≤ o.minedInBlockHeight ∧
          ¬forkedChain.Has o.minedInBlockHeight o.minedInBlockHash := by
  refine ⟨⟨by decide +kernel, by decide +kernel, by decide +kernel⟩, by decide +kernel,
    ⟨6, none⟩, scannedToFive, by rfl, rfl, rfl, by decide +kernel⟩

end MinotariWallet
