import MinotariWallet.Scan.Following

set_option autoImplicit false

/-! # No block is skipped

The heights that an account has processed and not rolled back should be one stretch, from its start
to where its counter is. The loop keeps that as long as the stream delivers to no account that a
reorg check has set back since the stream was opened: what the stream delivers then is above the
counter, and `process_blocks` takes it. -/

namespace MinotariWallet

open Sql Exec

/-! ## One account -/

/-- The heights an account has scanned, its counter and its recorded blocks: nothing is scanned and
    nothing recorded at or above the start or above the counter, or the heights are a stretch that
    begins at or below the start, the counter is in it or just past it, and nothing is recorded past
    it. -/
inductive Stretch (start : Nat) (heights : Nat → Prop) (next : Nat) (tips : Int → Prop) : Prop where
  | fresh (hnone : ∀ h, ¬heights h) (hnext : next ≤ start)
      (htips : ∀ r, tips r → r < start ∧ r ≤ next)
  | scanned (lo top : Nat) (hstart : lo ≤ start) (hlo : lo ≤ next) (htop : next ≤ top)
      (hheights : ∀ h, heights h ↔ lo ≤ h ∧ h < top) (htips : ∀ r, tips r → r < top)

namespace Stretch

variable {start next : Nat} {heights heights' : Nat → Prop} {tips tips' : Int → Prop}

/-- The account processes the blocks from its counter to `last`. -/
theorem process (h : Stretch start heights next tips) {last : Nat} (hle : next ≤ last)
    (hheights' : ∀ k, heights' k ↔ heights k ∨ (next ≤ k ∧ k ≤ last))
    (htips' : ∀ r, tips' r → tips r ∨ r ≤ last) : Stretch start heights' (last + 1) tips' := by
  cases h with
  | fresh hnone hnext htips =>
      refine .scanned next (last + 1) hnext (by omega) (Nat.le_refl _) (fun k => ?_) (fun r hr => ?_)
      · rw [hheights', or_iff_right (hnone k), Nat.lt_succ_iff]
      · rcases htips' r hr with h | h
        · have := (htips r h).2
          omega
        · omega
  | scanned lo top hstart hlo htop hheights htips =>
      refine .scanned lo (max top (last + 1)) hstart (by omega) (by omega) (fun k => ?_)
        (fun r hr => ?_)
      · rw [hheights', hheights]
        omega
      · rcases htips' r hr with h | h
        · have := htips r h
          omega
        · omega

/-- A reorg check sets the account back to `resume`, after a recorded block. -/
theorem rollback (h : Stretch start heights next tips) {resume : Nat}
    (hresume : resume = 0 ∨ ∃ r, tips r ∧ (resume : Int) = r + 1)
    (hheights' : ∀ k, heights' k ↔ heights k ∧ k < resume)
    (htips' : ∀ r, tips' r → r < resume) : Stretch start heights' resume tips' := by
  cases h with
  | fresh hnone hnext htips =>
      have hle : resume ≤ start := by
        rcases hresume with rfl | ⟨r, hr, heq⟩
        · omega
        · have := (htips r hr).1
          omega
      refine .fresh (fun k hk => hnone k ((hheights' k).mp hk).1) hle (fun r hr => ?_)
      have := htips' r hr
      omega
  | scanned lo top hstart hlo htop hheights htips =>
      have hle : resume ≤ top := by
        rcases hresume with rfl | ⟨r, hr, heq⟩
        · omega
        · have := htips r hr
          omega
      rcases Nat.lt_or_ge lo resume with hlt | hge
      · refine .scanned lo resume hstart (by omega) (Nat.le_refl _) (fun k => ?_) htips'
        rw [hheights', hheights]
        omega
      · refine .fresh (fun k hk => ?_) (by omega) (fun r hr => ?_)
        · rw [hheights', hheights] at hk
          omega
        · have := htips' r hr
          omega

/-- A poll cycle takes the counter back by one, onto a scanned block or past a recorded one. -/
theorem poll (h : Stretch start heights next tips)
    (hback : next = 0 ∨ heights (next - 1) ∨ ((∀ k, ¬heights k) ∧ ∀ r, tips r → r < next)) :
    Stretch start heights (next - 1) tips := by
  cases h with
  | fresh hnone hnext htips =>
      refine .fresh hnone (by omega) (fun r hr => ⟨(htips r hr).1, ?_⟩)
      rcases hback with rfl | h | ⟨-, h⟩
      · have := (htips r hr).2
        omega
      · exact absurd h (hnone _)
      · have := h r hr
        omega
  | scanned lo top hstart hlo htop hheights htips =>
      have hlo' : lo ≤ next - 1 ∨ ∀ k, ¬heights k := by
        rcases hback with rfl | h | ⟨h, -⟩
        · exact Or.inl (by omega)
        · exact Or.inl ((hheights _).mp h).1
        · exact Or.inr h
      rcases hlo' with hlo' | hnone
      · exact .scanned lo top hstart hlo' (by omega) hheights htips
      · have hempty : top ≤ lo := by
          by_contra hlt
          exact hnone lo ((hheights lo).mpr ⟨Nat.le_refl _, by omega⟩)
        refine .fresh hnone (by omega) (fun r hr => ?_)
        have hr' := htips r hr
        rcases hback with rfl | h | ⟨-, h⟩
        · omega
        · exact absurd h (hnone _)
        · have := h r hr
          omega

theorem congr (h : Stretch start heights next tips) (hheights' : ∀ k, heights' k ↔ heights k)
    (htips' : ∀ r, tips' r → tips r) : Stretch start heights' next tips' := by
  cases h with
  | fresh hnone hnext htips =>
      exact .fresh (fun k hk => hnone k ((hheights' k).mp hk)) hnext
        (fun r hr => htips r (htips' r hr))
  | scanned lo top hstart hlo htop hheights htips =>
      exact .scanned lo top hstart hlo htop (fun k => (hheights' k).trans (hheights k))
        (fun r hr => htips r (htips' r hr))

/-- From the start to the counter nothing is missing. -/
theorem contains (h : Stretch start heights next tips) {k : Nat} (hge : start ≤ k)
    (hlt : k < next) : heights k := by
  cases h with
  | fresh hnone hnext htips => omega
  | scanned lo top hstart hlo htop hheights htips => exact (hheights k).mpr (by omega)

/-- What lies between two scanned heights is scanned. -/
theorem no_gap (h : Stretch start heights next tips) {i j k : Nat} (hi : heights i)
    (hk : heights k) (hij : i ≤ j) (hjk : j ≤ k) : heights j := by
  cases h with
  | fresh hnone hnext htips => exact absurd hi (hnone i)
  | scanned lo top hstart hlo htop hheights htips =>
      have := (hheights i).mp hi
      have := (hheights k).mp hk
      exact (hheights j).mpr (by omega)

end Stretch

/-! ## Batches -/

section Batches

variable {blocks : List BlockScanResult} {height : Nat} {accountId : AccountId}

/-- The blocks of a batch follow each other, from the height on. -/
def Consecutive (height : Nat) (blocks : List BlockScanResult) : Prop :=
  blocks.map (·.height) = List.range' height blocks.length

instance : Decidable (Consecutive height blocks) := by
  unfold Consecutive; infer_instance

theorem Consecutive.mem_iff (h : Consecutive height blocks) {last : BlockScanResult}
    (hlast : blocks.getLast? = some last) :
    height ≤ last.height ∧
      ∀ k, (∃ b ∈ blocks, b.height = k) ↔ height ≤ k ∧ k ≤ last.height := by
  have hend : (blocks.map (·.height)).getLast? = some last.height := by
    rw [List.getLast?_map, hlast]
    rfl
  rw [h, List.getLast?_range'] at hend
  have hne : blocks.length ≠ 0 := by
    intro hzero
    rw [if_pos hzero] at hend
    cases hend
  rw [if_neg hne, Option.some.injEq] at hend
  refine ⟨by omega, fun k => ?_⟩
  rw [← List.mem_map, h, List.mem_range'_1]
  omega

theorem mem_processedHeights {next : Nat} {p : AccountId × Nat} :
    p ∈ processedHeights blocks accountId next ↔
      p.1 = accountId ∧ next ≤ p.2 ∧ ∃ b ∈ blocks, b.height = p.2 := by
  simp only [processedHeights, List.mem_map, List.mem_filter, decide_eq_true_eq]
  constructor
  · rintro ⟨b, ⟨hb, hle⟩, rfl⟩
    exact ⟨rfl, hle, b, hb, rfl⟩
  · rintro ⟨rfl, hle, b, hb, heq⟩
    exact ⟨b, ⟨hb, heq ▸ hle⟩, by rw [heq]⟩

/-- The recorded blocks after `process_blocks`: those before, and blocks of the batch. -/
theorem processBlocks_tips {env : ScanEnv} {bp : BlockProcessor} {now : Timestamp} {next : Nat}
    {events : List WalletEvent} {c c' : Conn Db}
    (h : processBlocks env bp now blocks accountId next c = .ok events c') :
    ∀ r ∈ c'.store.scannedTipBlocks.rows, r ∈ c.store.scannedTipBlocks.rows ∨
      (r.accountId = accountId ∧ ∃ b ∈ blocks, r.height = asI64 b.height) := by
  let tips : Db → Prop := fun db => ∀ r ∈ db.scannedTipBlocks.rows,
    r ∈ c.store.scannedTipBlocks.rows ∨
      (r.accountId = accountId ∧ ∃ b ∈ blocks, r.height = asI64 b.height)
  have hloop := Ensures.foldlM
    (f := fun (events : List WalletEvent) block => do
      let outcome ← bp.processBlock env now block accountId
      pure (events ++ outcome.walletEvents))
    (I := fun rest _ db => rest ⊆ blocks ∧ tips db)
    (blocks.filter (fun block => next ≤ block.height)) [] (fun b rest events => ?_)
  · exact (Ensures.inTransaction hloop c events c'
      ⟨List.filter_sublist.subset, fun r hr => Or.inl hr⟩ h).2
  · refine Ensures.bind (Q := fun _ db => rest ⊆ blocks ∧ tips db) ?_
      (fun outcome => Ensures.pure (fun db hdb => hdb))
    intro c₁ outcome c₂ hpre hrun
    obtain ⟨hsub, htips⟩ := hpre
    obtain ⟨hb, hrest⟩ := List.cons_subset.mp hsub
    have hrecorded := processBlock_tipRecorded env bp now b accountId _ c₁ outcome c₂ rfl hrun
    refine ⟨hrest, fun r hr => ?_⟩
    rcases hrecorded.new r hr with hold | ⟨ha, hheight, -⟩
    · exact htips r hold
    · exact Or.inr ⟨ha, b, hb, hheight⟩

end Batches

/-! ## The loop -/

namespace ScanLoop

/-- The heights of the recorded blocks of an account. -/
def tipHeights (s : ScanLoop) (accountId : AccountId) (height : Int) : Prop :=
  ∃ r ∈ s.db.scannedTipBlocks.rows, r.accountId = accountId ∧ r.height = height

/-- A batch goes on where the stream is. -/
def DeliversInOrder (s : ScanLoop) (a : ScanAction) : Prop :=
  match s.phase, a with
  | .receive stream, .receive (some (.ok blocks)) => Consecutive stream.position blocks
  | _, _ => True

/-- No batch is delivered to an account that a reorg check has set back since its last one, and a
    poll cycle takes no counter back but onto a block that the account has scanned or, where it has
    scanned none, past all that it has recorded. -/
def KeepsPlace (co : ScanCoordinator) (s : ScanLoop) (a : ScanAction) : Prop :=
  match s.phase, a with
  | .receive _, .receive (some (.ok [])) => co.mode = .continuous → ∀ target ∈ s.targets,
    target.nextBlockToScan = 0 ∨ (target.accountId, target.nextBlockToScan - 1) ∈ s.scanned ∨
      ((∀ p ∈ s.scanned, p.1 ≠ target.accountId) ∧
        ∀ r ∈ s.db.scannedTipBlocks.rows, r.accountId = target.accountId →
          r.height < target.nextBlockToScan)
  | .receive stream, .receive (some (.ok (_ :: _))) =>
    ∀ accountId ∈ stream.activeAccountIds, accountId ∉ stream.rolledBack
  | _, _ => True

instance (s : ScanLoop) (a : ScanAction) : Decidable (DeliversInOrder s a) :=
  decidable_of_iff ((match s.phase, a with
    | .receive stream, .receive (some (.ok blocks)) => decide (Consecutive stream.position blocks)
    | _, _ => true) = true) (by unfold DeliversInOrder; split <;> simp)

instance (co : ScanCoordinator) (s : ScanLoop) (a : ScanAction) : Decidable (KeepsPlace co s a) :=
  decidable_of_iff ((match s.phase, a with
    | .receive _, .receive (some (.ok [])) => decide (co.mode = .continuous →
        ∀ target ∈ s.targets, target.nextBlockToScan = 0 ∨
          (target.accountId, target.nextBlockToScan - 1) ∈ s.scanned ∨
          ((∀ p ∈ s.scanned, p.1 ≠ target.accountId) ∧
            ∀ r ∈ s.db.scannedTipBlocks.rows, r.accountId = target.accountId →
              r.height < target.nextBlockToScan))
    | .receive stream, .receive (some (.ok (_ :: _))) =>
      decide (∀ accountId ∈ stream.activeAccountIds, accountId ∉ stream.rolledBack)
    | _, _ => true) = true) (by unfold KeepsPlace; split <;> simp only [decide_eq_true_eq])

/-- Nothing is skipped: what each account has scanned has no gap, and holds every height from its
    start to its counter. -/
def Gapless (start : List AccountSyncTarget) (s : ScanLoop) : Prop :=
  ∀ target ∈ s.targets, ∃ t₀ ∈ start, t₀.accountId = target.accountId ∧
    (∀ k, t₀.nextBlockToScan ≤ k → k < target.nextBlockToScan → (target.accountId, k) ∈ s.scanned) ∧
    ∀ p ∈ s.scanned, ∀ q ∈ s.scanned, p.1 = target.accountId → q.1 = target.accountId →
      ∀ k, p.2 ≤ k → k ≤ q.2 → (target.accountId, k) ∈ s.scanned

/-- Every target's heights are a stretch, and the batch that is being processed begins at the
    counters of the accounts that have it still to process. -/
structure Placed (start : List AccountSyncTarget) (s : ScanLoop) : Prop where
  stretch : ∀ target ∈ s.targets, ∃ t₀ ∈ start, t₀.accountId = target.accountId ∧
    Stretch t₀.nextBlockToScan (fun k => (target.accountId, k) ∈ s.scanned)
      target.nextBlockToScan (s.tipHeights target.accountId)
  batch : ∀ stream blocks rest, s.phase = .processBatch stream blocks rest →
    ∀ target ∈ s.targets, target.accountId ∈ rest → Consecutive target.nextBlockToScan blocks

variable {co : ScanCoordinator} {s s' : ScanLoop} {a : ScanAction}
  {start : List AccountSyncTarget}

theorem Placed.gapless (h : Placed start s) : Gapless start s := by
  intro target htarget
  obtain ⟨t₀, ht₀, hid, hstretch⟩ := h.stretch target htarget
  refine ⟨t₀, ht₀, hid, fun k hge hlt => hstretch.contains hge hlt, ?_⟩
  rintro ⟨a₁, i⟩ hi ⟨a₂, j⟩ hj rfl rfl k hik hkj
  exact hstretch.no_gap hi hj hik hkj

/-- A state with the same targets, scanned heights and recorded blocks, and no batch in progress. -/
theorem Placed.of_eq (h : Placed start s) (htargets : s'.targets = s.targets)
    (hscanned : s'.scanned = s.scanned) (hdb : s'.db = s.db)
    (hphase : ∀ stream blocks rest, s'.phase ≠ .processBatch stream blocks rest) :
    Placed start s' where
  stretch := by
    unfold tipHeights
    rw [htargets, hscanned, hdb]
    exact h.stretch
  batch stream blocks rest hp := absurd hp (hphase stream blocks rest)

theorem checkGlobalReorgs_ne (accountIds : List AccountId) (stream : Option UtxoStream) :
    ∀ st blocks rest, checkGlobalReorgs accountIds stream ≠ .processBatch st blocks rest := by
  intro st blocks rest
  rcases checkGlobalReorgs_phase accountIds stream with hp | hp <;> rw [hp]
  · cases stream <;> nofun
  · nofun

theorem placed_step (hreg : s.Regular) (hf : s.Following) (hp : Placed start s)
    (horder : DeliversInOrder s a) (hplace : KeepsPlace co s a) (h : s.step co a = some s') :
    Placed start s' := by
  cases step_cases hreg h with
  | failed e => exact hp.of_eq rfl rfl rfl nofun
  | cancelled tip hphase => exact hp.of_eq rfl rfl rfl nofun
  | opened tipHeight hphase hopen => exact hp.of_eq rfl rfl rfl nofun
  | reopened hphase => exact hp.of_eq rfl rfl rfl nofun
  | limited response hphase => exact hp.of_eq rfl rfl rfl nofun
  | finished hphase hmode => exact hp.of_eq rfl rfl rfl nofun
  | polled hphase hmode =>
      unfold KeepsPlace at hplace
      rw [hphase] at hplace
      refine ⟨?_, nofun⟩
      rintro u hu
      obtain ⟨target, htarget, rfl⟩ := List.mem_map.mp hu
      obtain ⟨t₀, ht₀, hid, hstretch⟩ := hp.stretch target htarget
      refine ⟨t₀, ht₀, hid, hstretch.poll ?_⟩
      rcases hplace hmode target htarget with hzero | hback | ⟨hnone, htips⟩
      · exact Or.inl hzero
      · exact Or.inr (Or.inl hback)
      · refine Or.inr (Or.inr ⟨fun k hk => hnone _ hk rfl, ?_⟩)
        rintro _ ⟨r, hr, ha, rfl⟩
        exact htips r hr ha
  | received hne hphase =>
      rename_i stream blocks
      obtain ⟨b, rest, rfl⟩ := List.exists_cons_of_ne_nil hne
      unfold KeepsPlace at hplace
      unfold DeliversInOrder at horder
      rw [hphase] at hplace horder
      obtain ⟨hdb, htargets, hscanned, -⟩ := nextAccount_fields co s
        (stream.delivered (b :: rest)) (b :: rest) stream.activeAccountIds
      refine ⟨?_, ?_⟩
      · unfold tipHeights
        rw [htargets, hscanned, hdb]
        exact hp.stretch
      · intro stream' blocks' rest' hbatch target htarget hmem
        rw [htargets] at htarget
        rcases nextAccount_phase co s (stream.delivered (b :: rest)) (b :: rest)
          stream.activeAccountIds with ⟨-, hq⟩ | ⟨-, hq | hq⟩ <;> rw [hq] at hbatch <;> cases hbatch
        -- the account is active and was not set back, so its counter is where the stream is
        cases hf.follows stream [] (by rw [hphase]; rfl) target htarget with
        | behind h => cases h
        | rolledBack h => exact absurd h (hplace _ hmem)
        | active h hnext => exact hnext ▸ horder
        | waiting h horizon hhorizon hle => exact absurd hmem h
  | processed hphase hlast htarget hrun =>
      rename_i stream blocks last accountId accountIds target now budget events c
      obtain ⟨hmem, hid⟩ := findTarget_some htarget
      have hcons := hp.batch stream blocks (accountId :: accountIds) hphase target hmem (by simp [hid])
      obtain ⟨hle, hheights⟩ := hcons.mem_iff hlast
      have htips := processBlocks_tips hrun
      have hnodup := (hf.nodup stream (accountId :: accountIds) (by rw [hphase]; rfl)).2.1
      obtain ⟨hdb, htargets, hscanned, -⟩ := nextAccount_fields co { s with
        db := c.store
        targets := setNextBlockToScan s.targets accountId (last.height + 1)
        scanned := s.scanned ++ processedHeights blocks accountId target.nextBlockToScan } stream blocks accountIds
      refine ⟨?_, ?_⟩
      · unfold tipHeights
        rw [htargets, hscanned, hdb]
        intro u hu
        rcases (mem_setNextBlockToScan hf.ids).mp hu with ⟨hu, hne⟩ | ⟨v, hv, hvid, rfl⟩
        · obtain ⟨t₀, ht₀, hid₀, hstretch⟩ := hp.stretch u hu
          refine ⟨t₀, ht₀, hid₀, hstretch.congr (fun k => ?_) ?_⟩
          · simp only [List.mem_append, mem_processedHeights, hne, false_and, or_false]
          · rintro _ ⟨r, hr, ha, rfl⟩
            rcases htips r hr with hold | ⟨ha', -⟩
            · exact ⟨r, hold, ha, rfl⟩
            · exact absurd (ha.symm.trans ha') hne
        · obtain rfl := List.inj_on_of_nodup_map hf.ids hv hmem (hvid.trans hid.symm)
          obtain ⟨t₀, ht₀, hid₀, hstretch⟩ := hp.stretch v hv
          refine ⟨t₀, ht₀, hid₀, hstretch.process hle (fun k => ?_) ?_⟩
          · simp only [List.mem_append, mem_processedHeights, hvid, true_and, hheights]
            exact or_congr_right (by omega)
          · rintro _ ⟨r, hr, ha, rfl⟩
            rcases htips r hr with hold | ⟨-, b, hb, hheight⟩
            · exact Or.inl ⟨r, hold, ha, rfl⟩
            · refine Or.inr ?_
              have := ((hheights b.height).mp ⟨b, hb, rfl⟩).2
              have := asI64_le b.height
              omega
      · intro stream' blocks' rest' hbatch u hu hin
        rw [htargets] at hu
        rcases nextAccount_phase co { s with
          db := c.store
          targets := setNextBlockToScan s.targets accountId (last.height + 1)
          scanned := s.scanned ++ processedHeights blocks accountId target.nextBlockToScan } stream blocks accountIds with ⟨-, hq⟩ | ⟨-, hq | hq⟩ <;>
          rw [hq] at hbatch <;> cases hbatch
        rcases (mem_setNextBlockToScan hf.ids).mp hu with ⟨hu, hne⟩ | ⟨v, hv, hvid, rfl⟩
        · exact hp.batch _ _ _ hphase u hu (List.mem_cons_of_mem _ hin)
        · exact absurd (hvid ▸ hin) (List.nodup_cons.mp hnodup).1
  | onChain budget hphase hcheck hnone =>
      rename_i stream accountId accountIds _ now result db
      refine ⟨fun target htarget => ?_, fun st blocks rest hbatch =>
        absurd hbatch (checkGlobalReorgs_ne _ _ st blocks rest)⟩
      obtain ⟨t₀, ht₀, hid₀, hstretch⟩ := hp.stretch target htarget
      refine ⟨t₀, ht₀, hid₀, hstretch.congr (fun k => Iff.rfl) ?_⟩
      rintro _ ⟨r, hr, ha, rfl⟩
      exact ⟨r, (hcheck.tips hr).1, ha, rfl⟩
  | rolledBack budget hphase hcheck hsome =>
      rename_i stream accountId accountIds _ now result db
      refine ⟨fun u hu => ?_, fun st blocks rest hbatch =>
        absurd hbatch (checkGlobalReorgs_ne _ _ st blocks rest)⟩
      rcases (mem_setNextBlockToScan hf.ids).mp hu with ⟨hu, hne⟩ | ⟨v, hv, hvid, rfl⟩
      · obtain ⟨t₀, ht₀, hid₀, hstretch⟩ := hp.stretch u hu
        refine ⟨t₀, ht₀, hid₀, hstretch.congr (fun k => ?_) ?_⟩
        · simp [List.mem_filter, hne]
        · rintro _ ⟨r, hr, ha, rfl⟩
          exact ⟨r, (hcheck.tips hr).1, ha, rfl⟩
      · obtain ⟨t₀, ht₀, hid₀, hstretch⟩ := hp.stretch v hv
        refine ⟨t₀, ht₀, hid₀, hstretch.rollback ?_ (fun k => ?_) ?_⟩
        · rcases hcheck.resume with hzero | ⟨r, hr, ha, heq⟩
          · exact Or.inl hzero
          · exact Or.inr ⟨r.height, ⟨r, hr, ha.trans hvid.symm, rfl⟩, heq⟩
        · simp [List.mem_filter, hvid]
        · rintro _ ⟨r, hr, ha, rfl⟩
          exact (hcheck.tips hr).2 (ha.trans hvid)
  | woke hphase => exact hp.of_eq rfl rfl rfl nofun
  | wokeToCheck hphase => exact hp.of_eq rfl rfl rfl (checkGlobalReorgs_ne _ _)

end ScanLoop

/-! ## The start -/

section Start

variable {co : ScanCoordinator} {scanningOffset : Nat} {now : Timestamp}

/-- A prepared account resumes above all that it has recorded, and what others have recorded stays. -/
theorem prepareTarget_ok {account : AccountRow} {node : PrepareAnswers} {c c' : Conn Db}
    {target : AccountSyncTarget}
    (h : co.prepareTarget scanningOffset now account node c = .ok target c') :
    target.accountId = account.id ∧ ∀ r ∈ c'.store.scannedTipBlocks.rows,
      r ∈ c.store.scannedTipBlocks.rows ∧
        (r.accountId = account.id → r.height < target.nextBlockToScan) := by
  obtain ⟨hid, result, hcheck, hnext⟩ := prepareTarget_check h
  refine ⟨hid, fun r hr => ⟨(hcheck.tips hr).1, fun ha => ?_⟩⟩
  have hlt := (hcheck.tips hr).2 ha
  rcases hnext with hzero | hnext
  · -- an account that starts at its birthday has nothing recorded
    have hge := hcheck.nonneg (hcheck.tips hr).1 ha
    omega
  · rwa [hnext]

/-- The accounts are prepared in their order, and each resumes above all that it has recorded. -/
theorem prepareTargets_ok {accounts : List (AccountRow × PrepareAnswers)} {c c' : Conn Db}
    {targets : List AccountSyncTarget}
    (hids : (accounts.map (fun account => account.1.id)).Nodup)
    (h : co.prepareTargets scanningOffset now accounts c = .ok targets c') :
    targets.map (·.accountId) = accounts.map (fun account => account.1.id) ∧
      ∀ r ∈ c'.store.scannedTipBlocks.rows, r ∈ c.store.scannedTipBlocks.rows ∧
        ∀ target ∈ targets, r.accountId = target.accountId →
          r.height < target.nextBlockToScan := by
  induction accounts generalizing c targets with
  | nil =>
      obtain ⟨rfl, rfl⟩ := pure_ok.mp h
      exact ⟨rfl, fun r hr => ⟨hr, nofun⟩⟩
  | cons account rest ih =>
      obtain ⟨account, node⟩ := account
      obtain ⟨target, c₁, htarget, h⟩ := bind_ok.mp h
      obtain ⟨targets, c₂, hrest, h⟩ := bind_ok.mp h
      obtain ⟨rfl, rfl⟩ := pure_ok.mp h
      obtain ⟨hid, hfirst⟩ := prepareTarget_ok htarget
      obtain ⟨hmap, htips⟩ := ih (List.nodup_cons.mp hids).2 hrest
      refine ⟨by simp [hid, hmap], fun r hr => ⟨(hfirst r (htips r hr).1).1, ?_⟩⟩
      intro t ht ha
      rcases List.mem_cons.mp ht with rfl | ht
      · exact (hfirst r (htips r hr).1).2 (ha.trans hid)
      · exact (htips r hr).2 t ht ha

/-- `run`, up to the first iteration, leaves every target in place. -/
theorem placed_start {accounts : List (AccountRow × PrepareAnswers)} {c c' : Conn Db}
    {targets : List AccountSyncTarget}
    (hids : (accounts.map (fun account => account.1.id)).Nodup)
    (h : co.prepareTargets scanningOffset now accounts c = .ok targets c') :
    ScanLoop.Placed targets (co.unifiedScanLoop c'.store targets) where
  stretch target htarget := by
    refine ⟨target, htarget, rfl, .fresh (fun k hk => List.not_mem_nil hk) (Nat.le_refl _) ?_⟩
    rintro _ ⟨r, hr, ha, rfl⟩
    have hlt := ((prepareTargets_ok hids h).2 r hr).2 target htarget ha
    exact ⟨hlt, Int.le_of_lt hlt⟩
  batch := nofun

end Start

namespace ScanLoop

/-- In a run over batches that follow each other, in which no account loses its place, no block is
    skipped. -/
theorem gapless_of_run (co : ScanCoordinator) (scanningOffset : Nat) (now : Timestamp)
    (accounts : List (AccountRow × PrepareAnswers)) (c c' : Conn Db)
    (targets : List AccountSyncTarget) (as : List ScanAction)
    (hids : (accounts.map (fun account => account.1.id)).Nodup)
    (hprepare : co.prepareTargets scanningOffset now accounts c = .ok targets c')
    (horder : Transition.Along (step co) (fun s a => DeliversInOrder s a)
      (co.unifiedScanLoop c'.store targets) as)
    (hplace : Transition.Along (step co) (KeepsPlace co) (co.unifiedScanLoop c'.store targets) as) :
    Transition.Always (step co) (Gapless targets) (co.unifiedScanLoop c'.store targets) as := by
  have hnodup : (targets.map (·.accountId)).Nodup := by
    rw [(prepareTargets_ok hids hprepare).1]
    exact hids
  refine Transition.always_of_along (I := fun s => s.Regular ∧ s.Following ∧ Placed targets s)
    (fun s a s' hs hG hstep => ⟨regular_step hs.1 hstep, following_step hs.1 hs.2.1 hstep,
      placed_step hs.1 hs.2.1 hs.2.2 hG.1 hG.2 hstep⟩) (fun s hs => hs.2.2.gapless) ?_
    (horder.and hplace)
  exact ⟨trivial, .of_closed hnodup rfl, placed_start hids hprepare⟩

end ScanLoop

/-! ## Two runs

An account that starts at its birthday, block 0 of `exampleChain`. -/

def exampleAccounts : List (AccountRow × PrepareAnswers) :=
  [(⟨1, 7, 0⟩, ⟨headersOf exampleChain, fun _ => .ok 0⟩)]

/-- Blocks 0 and 1, the end marker, a poll cycle, and block 1 again with block 2. -/
def pollOnce : List ScanAction :=
  [.iterate false (.ok 1), .receive (some (.ok [emptyBlock 0, emptyBlock 1])),
    .processBlocks 0 none, .receive (some (.ok [])), .wake false,
    .handleReorgs (headersOf exampleChain) 0 none, .iterate false (.ok 2),
    .receive (some (.ok [emptyBlock 1, emptyBlock 2])), .processBlocks 0 none]

theorem gapless_pollOnce :
    (Transition.run (ScanLoop.step (plainCoordinator .continuous))
      ((plainCoordinator .continuous).unifiedScanLoop Db.empty [⟨1, 7, 0⟩]) pollOnce).isSome ∧
      Transition.Always (ScanLoop.step (plainCoordinator .continuous))
        (ScanLoop.Gapless [⟨1, 7, 0⟩])
        ((plainCoordinator .continuous).unifiedScanLoop Db.empty [⟨1, 7, 0⟩]) pollOnce :=
  ⟨by decide +kernel,
    ScanLoop.gapless_of_run (plainCoordinator .continuous) 0 0 exampleAccounts ⟨Db.empty, none⟩
      ⟨Db.empty, none⟩ [⟨1, 7, 0⟩] pollOnce (by decide) (by rfl) (by decide +kernel)
      (by decide +kernel)⟩

/-- A coordinator that checks for reorgs after every batch. -/
def checkingCoordinator : ScanCoordinator :=
  { plainCoordinator .full with reorgCheckInterval := 1 }

/-- Blocks 0 to 2, a check against a node that has only block 0 left, and block 3 of the stream that
    was open before. -/
def setBackMidStream : List ScanAction :=
  [.iterate false (.ok 9),
    .receive (some (.ok [emptyBlock 0, emptyBlock 1, emptyBlock 2])), .processBlocks 0 none,
    .handleReorgs (fun height => .ok (if height = 0 then some ⟨0, 100⟩ else none)) 0 none,
    .receive (some (.ok [emptyBlock 3])), .processBlocks 0 none]

/-- Blocks 1 and 2 were rolled back and are never scanned again, though the batches followed each
    other. -/
theorem setBackMidStream_notGapless :
    checkingCoordinator.prepareTargets 0 0 exampleAccounts ⟨Db.empty, none⟩ =
        .ok [⟨1, 7, 0⟩] ⟨Db.empty, none⟩ ∧
      Transition.Along (ScanLoop.step checkingCoordinator) (fun s a => ScanLoop.DeliversInOrder s a)
        (checkingCoordinator.unifiedScanLoop Db.empty [⟨1, 7, 0⟩]) setBackMidStream ∧
      ∃ s', Transition.run (ScanLoop.step checkingCoordinator)
          (checkingCoordinator.unifiedScanLoop Db.empty [⟨1, 7, 0⟩]) setBackMidStream = some s' ∧
        s'.targets = [⟨1, 7, 4⟩] ∧ s'.scanned = [(1, 0), (1, 3)] ∧
        ¬ScanLoop.Gapless [⟨1, 7, 0⟩] s' := by
  refine ⟨by rfl, by decide +kernel, ?_⟩
  obtain ⟨s', hrun, hs'⟩ := Transition.exists_run_of_any (f := ScanLoop.step checkingCoordinator)
    (s := checkingCoordinator.unifiedScanLoop Db.empty [⟨1, 7, 0⟩]) (l := setBackMidStream)
    (q := fun s' => decide (s'.targets = [⟨1, 7, 4⟩] ∧ s'.scanned = [(1, 0), (1, 3)]))
    (by decide +kernel)
  obtain ⟨htargets, hscanned⟩ := of_decide_eq_true hs'
  refine ⟨s', hrun, htargets, hscanned, fun hgapless => ?_⟩
  obtain ⟨t₀, ht₀, -, hcontains, -⟩ := hgapless ⟨1, 7, 4⟩ (by rw [htargets]; simp)
  obtain rfl := List.mem_singleton.mp ht₀
  have hmissing := hcontains 1 (by decide) (by decide)
  rw [hscanned] at hmissing
  exact absurd hmissing (by decide)

end MinotariWallet
