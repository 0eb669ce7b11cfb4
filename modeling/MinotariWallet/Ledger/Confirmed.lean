import MinotariWallet.Ledger.Conservation
import MinotariWallet.Scan.Places

set_option autoImplicit false

/-! # When outputs are confirmed

`process_confirmations` marks an output once enough blocks are above it, and a rollback should take
the mark back when those blocks go. It deletes the outputs at or above the fork and leaves the rows
below as they are, marks included. -/

namespace MinotariWallet

open Sql Exec

/-! ## The property and its condition -/

/-- Every undeleted output that is marked as confirmed was deep enough in the block that confirmed
    it, and the highest recorded block of its account is no lower than that block. -/
def ConfirmedInDepth (requiredConfirmations : Nat) (db : Db) : Prop :=
  ∀ o ∈ db.outputs.rows, o.active = true → ∀ confirmedHeight ∈ o.confirmedHeight,
    o.minedInBlockHeight + requiredConfirmations ≤ confirmedHeight ∧
      ∃ tip, (db.tipHeights o.accountId).max? = some tip ∧ confirmedHeight ≤ tip ∧
        o.minedInBlockHeight + requiredConfirmations ≤ tip

/-- `get_unconfirmed_outputs` would take an output mined here for deep enough in the block, and it is
    not: the subtraction of the code stops at 0. -/
def TooEarly (requiredConfirmations : Nat) (block : BlockScanResult) (minedInBlockHeight : Int) :
    Prop :=
  minedInBlockHeight ≤ asI64 (block.height - requiredConfirmations) ∧
    asI64 block.height < minedInBlockHeight + requiredConfirmations

/-- A block finds no unconfirmed output of its account too early, its own included; a rollback leaves
    no output of its account that was confirmed at or above the fork. -/
def ConfirmsInDepth (requiredConfirmations : Nat) (db : Db) : LedgerAction → Prop
  | .processBlock bp block accountId _ =>
    (∀ o ∈ db.outputs.rows, o.active = true → o.accountId = accountId → o.confirmedHeight = none →
      ¬TooEarly requiredConfirmations block o.minedInBlockHeight) ∧
    ∀ w ∈ block.walletOutputs, bp.walletIndexToAccountId[w.2.2]? = some accountId →
      ¬TooEarly requiredConfirmations block (asI64 block.height)
  | .rollbackFromHeight accountId height _ _ =>
    ∀ o ∈ db.outputs.rows, o.active = true → o.accountId = accountId →
      o.minedInBlockHeight < asI64 height → ∀ confirmedHeight ∈ o.confirmedHeight,
        confirmedHeight < asI64 height
  | _ => True

/-- The wallet is configured with this number. -/
def LedgerAction.Requires (requiredConfirmations : Nat) : LedgerAction → Prop
  | .processBlock bp _ _ _ => bp.requiredConfirmations = requiredConfirmations
  | _ => True

variable {req : Nat}

instance (db : Db) : Decidable (ConfirmedInDepth req db) := by
  unfold ConfirmedInDepth
  infer_instance

instance (block : BlockScanResult) (minedInBlockHeight : Int) :
    Decidable (TooEarly req block minedInBlockHeight) :=
  inferInstanceAs (Decidable (_ ∧ _))

instance (db : Db) : DecidablePred (ConfirmsInDepth req db)
  | .processBlock _ _ _ _ => inferInstanceAs (Decidable (_ ∧ _))
  | .lockOutput _ _ _ => .isTrue trivial
  | .unlockOutputsForRequest _ => .isTrue trivial
  | .rollbackFromHeight _ _ _ _ => inferInstanceAs (Decidable (∀ o ∈ _, _))

instance : DecidablePred (LedgerAction.Requires req)
  | .processBlock _ _ _ _ => inferInstanceAs (Decidable (_ = _))
  | .lockOutput _ _ _ => .isTrue trivial
  | .unlockOutputsForRequest _ => .isTrue trivial
  | .rollbackFromHeight _ _ _ _ => .isTrue trivial

/-! ## The invariant -/

/-- No two undeleted outputs have the same hash, and a confirmed one was deep enough in a block that
    is recorded for its account. -/
structure ConfirmedAtTip (req : Nat) (L : Ledger) : Prop where
  unique : ∀ o ∈ L.outputs.rows, ∀ o' ∈ L.outputs.rows, o.active = true → o'.active = true →
    o.outputHash = o'.outputHash → o = o'
  deep : ∀ o ∈ L.outputs.rows, o.active = true → ∀ confirmedHeight ∈ o.confirmedHeight,
    o.minedInBlockHeight + req ≤ confirmedHeight ∧
      Recorded L.scannedTipBlocks o.accountId confirmedHeight

theorem ConfirmedAtTip.confirmedInDepth {db : Db} (h : ConfirmedAtTip req db.ledger) :
    ConfirmedInDepth req db := by
  intro o ho hactive confirmedHeight hconfirmed
  obtain ⟨hdeep, b, hb, hacc, hheight⟩ := h.deep o ho hactive confirmedHeight hconfirmed
  have hmem : confirmedHeight ∈ db.tipHeights o.accountId :=
    List.mem_map.mpr ⟨b, Table.mem_select.mpr ⟨hb, by simpa using hacc⟩, hheight⟩
  refine ⟨hdeep, ?_⟩
  cases hmax : (db.tipHeights o.accountId).max? with
  | none =>
      rw [List.max?_eq_none_iff.mp hmax] at hmem
      cases hmem
  | some tip =>
      have hle : confirmedHeight ≤ tip := (List.max?_eq_some_iff.mp hmax).2 _ hmem
      exact ⟨tip, rfl, hle, by omega⟩

theorem confirmedAtTip_empty : ConfirmedAtTip req Db.empty.ledger := by
  constructor <;> intro o ho <;> cases ho

/-- What changes neither what an output is nor its confirmation. -/
structure KeepsConfirmation (f : OutputRow → OutputRow) : Prop where
  id : ∀ o, (f o).id = o.id
  active : ∀ o, (f o).active = o.active
  account : ∀ o, (f o).accountId = o.accountId
  hash : ∀ o, (f o).outputHash = o.outputHash
  mined : ∀ o, (f o).minedInBlockHeight = o.minedInBlockHeight
  confirmed : ∀ o, (f o).confirmedHeight = o.confirmedHeight

theorem ConfirmedAtTip.updateOutputs {L : Ledger} (h : ConfirmedAtTip req L)
    {p : OutputRow → Bool} {f : OutputRow → OutputRow} (hf : KeepsConfirmation f) :
    ConfirmedAtTip req { L with outputs := L.outputs.updateWhere p f hf.id } := by
  have hrow : ∀ o, (if p o = true then f o else o).active = o.active ∧
      (if p o = true then f o else o).accountId = o.accountId ∧
      (if p o = true then f o else o).outputHash = o.outputHash ∧
      (if p o = true then f o else o).minedInBlockHeight = o.minedInBlockHeight ∧
      (if p o = true then f o else o).confirmedHeight = o.confirmedHeight := by
    intro o
    split
    · exact ⟨hf.active o, hf.account o, hf.hash o, hf.mined o, hf.confirmed o⟩
    · exact ⟨rfl, rfl, rfl, rfl, rfl⟩
  constructor
  · intro o₁ ho₁ o₂ ho₂ hactive₁ hactive₂ hhash
    obtain ⟨o, ho, rfl⟩ := (AutoTable.mem_updateWhere _).mp ho₁
    obtain ⟨o', ho', rfl⟩ := (AutoTable.mem_updateWhere _).mp ho₂
    rw [(hrow o).1] at hactive₁
    rw [(hrow o').1] at hactive₂
    rw [(hrow o).2.2.1, (hrow o').2.2.1] at hhash
    rw [h.unique o ho o' ho' hactive₁ hactive₂ hhash]
  · intro o₁ ho₁ hactive₁ confirmedHeight hconfirmed
    obtain ⟨o, ho, rfl⟩ := (AutoTable.mem_updateWhere _).mp ho₁
    obtain ⟨hactive, hacc, -, hmined, hconf⟩ := hrow o
    rw [hactive] at hactive₁
    rw [hconf] at hconfirmed
    rw [hacc, hmined]
    exact h.deep o ho hactive₁ confirmedHeight hconfirmed

/-! ## Blocks -/

section Blocks

variable {env : ScanEnv} {bp : BlockProcessor} {now : Timestamp} {block : BlockScanResult}
  {accountId : AccountId}

/-- The undeleted output of the account is unconfirmed. -/
def OutputRow.Unconfirmed (accountId : AccountId) (o : OutputRow) : Prop :=
  o.active = true ∧ o.accountId = accountId ∧ o.confirmedHeight = none

/-- No unconfirmed output is too early in the block. -/
def NoneTooEarly (req : Nat) (block : BlockScanResult) (accountId : AccountId) (L : Ledger) : Prop :=
  ∀ o ∈ L.outputs.rows, o.Unconfirmed accountId → ¬TooEarly req block o.minedInBlockHeight

/-- None of the outputs still to come is too early in its own block. -/
def NoneToCome (req : Nat) (bp : BlockProcessor) (block : BlockScanResult) (accountId : AccountId)
    (rest : List (FixedHash × WalletOutput × Nat)) : Prop :=
  ∀ w ∈ rest, bp.walletIndexToAccountId[w.2.2]? = some accountId →
    ¬TooEarly req block (asI64 block.height)

theorem confirmedAtTip_insertOutput {L : Ledger} (h : ConfirmedAtTip req L) {m : Id → OutputRow}
    (hid : ∀ k, (m k).id = k) (hunconfirmed : ∀ k, (m k).confirmedHeight = none)
    (hnew : ∀ o ∈ L.outputs.rows, o.active = true → ∀ k, o.outputHash ≠ (m k).outputHash) :
    ConfirmedAtTip req { L with outputs := L.outputs.insert m hid } := by
  constructor
  · intro o ho o' ho' hactive hactive' hhash
    rcases (AutoTable.mem_insert hid).mp ho with ho | rfl
    · rcases (AutoTable.mem_insert hid).mp ho' with ho' | rfl
      · exact h.unique o ho o' ho' hactive hactive' hhash
      · exact absurd hhash (hnew o ho hactive _)
    · rcases (AutoTable.mem_insert hid).mp ho' with ho' | rfl
      · exact absurd hhash.symm (hnew o' ho' hactive' _)
      · rfl
  · intro o ho hactive confirmedHeight hconfirmed
    rcases (AutoTable.mem_insert hid).mp ho with ho | rfl
    · exact h.deep o ho hactive confirmedHeight hconfirmed
    · rw [hunconfirmed] at hconfirmed
      cases hconfirmed

theorem keepsConfirmation_status (status : OutputStatus) :
    KeepsConfirmation (fun o => { o with status }) :=
  ⟨fun _ => rfl, fun _ => rfl, fun _ => rfl, fun _ => rfl, fun _ => rfl, fun _ => rfl⟩

/-- A spend does not change the confirmations. -/
theorem confirmedAtTip_debit {db : Db} {outputId : Id} {height : Nat} {blockHash : FixedHash}
    {timestamp : Timestamp} {change : BalanceChange}
    (h : ConfirmedAtTip req db.ledger ∧ NoneTooEarly req block accountId db.ledger) :
    ConfirmedAtTip req (((db.insertOrIgnoreInput accountId outputId height blockHash
        timestamp).insertBalanceChange change).2.updateOutputStatus outputId .spent).ledger ∧
      NoneTooEarly req block accountId (((db.insertOrIgnoreInput accountId outputId height blockHash
        timestamp).insertBalanceChange change).2.updateOutputStatus outputId .spent).ledger := by
  have houtputs := outputs_insertOrIgnoreInput db accountId outputId height blockHash timestamp
  have htips : (db.insertOrIgnoreInput accountId outputId height blockHash
      timestamp).scannedTipBlocks = db.scannedTipBlocks := by
    unfold Db.insertOrIgnoreInput
    split <;> rfl
  have hspent := h.1.updateOutputs (p := fun o => o.id == outputId)
    (keepsConfirmation_status .spent)
  refine ⟨⟨?_, ?_⟩, ?_⟩
  · simpa only [Db.ledger, Db.updateOutputStatus, Db.insertBalanceChange, houtputs] using
      hspent.unique
  · simpa only [Db.ledger, Db.updateOutputStatus, Db.insertBalanceChange, houtputs, htips] using
      hspent.deep
  · intro o₁ ho₁ hunconfirmed
    simp only [Db.ledger, Db.updateOutputStatus, Db.insertBalanceChange, houtputs] at ho₁
    obtain ⟨o, ho, rfl⟩ := (AutoTable.mem_updateWhere _).mp ho₁
    have hearly := h.2 o ho
    by_cases hid : (o.id == outputId) = true
    · rw [if_pos hid] at hunconfirmed ⊢
      exact hearly hunconfirmed
    · rw [if_neg hid] at hunconfirmed ⊢
      exact hearly hunconfirmed

theorem confirmedAtTip_rule (env : ScanEnv) (now : Timestamp) :
    BlockRule env bp now block accountId
      (fun rest L => ConfirmedAtTip req L ∧ NoneTooEarly req block accountId L ∧
        NoneToCome req bp block accountId rest)
      (fun _ L => ConfirmedAtTip req L ∧ NoneTooEarly req block accountId L) (fun _ => True) where
  skip _ _ _ _ h := ⟨h.1, h.2.1, fun w hw => h.2.2 w (List.mem_cons_of_mem _ hw)⟩
  credit w rest key memo payref id db db' hidx hins h := by
    obtain ⟨hconfirmed, hearly, hcome⟩ := h
    obtain ⟨timestamp, -, hnew, -, rfl⟩ := insertOutput_ok hins
    let m : Id → OutputRow := newOutputRow env.toExternals accountId key w.1 w.2.1 block.height
      block.blockHash timestamp memo.parsed memo.hex payref w.2.1.isBurned
    have hins' := confirmedAtTip_insertOutput (m := m) hconfirmed (fun _ => rfl) (fun _ => rfl)
      (fun o ho hactive _ => hnew o ho hactive)
    refine ⟨⟨hins'.unique, hins'.deep⟩, fun o ho hunconfirmed => ?_,
      fun w hw => hcome w (List.mem_cons_of_mem _ hw)⟩
    rcases (AutoTable.mem_insert (fun _ => rfl)).mp ho with ho | rfl
    · exact hearly o ho hunconfirmed
    · exact hcome w List.mem_cons_self hidx
  outputsDone _ h := ⟨h.1, h.2.1⟩
  ignore _ _ _ _ h := h
  debit _ _ _ _ _ _ _ _ h := confirmedAtTip_debit h
  record _ _ := trivial
  confirm _ _ _ := trivial

/-- Marking an output that is deep enough in a recorded block. -/
theorem confirmedAtTip_markOutputConfirmed {db : Db} {hash : FixedHash} {height : Nat}
    {blockHash : FixedHash} (h : ConfirmedAtTip req db.ledger)
    (hdeep : ∃ o ∈ db.outputs.rows, o.active = true ∧ o.accountId = accountId ∧
      o.outputHash = hash ∧ o.minedInBlockHeight + req ≤ asI64 height)
    (hrecorded : Recorded db.scannedTipBlocks accountId (asI64 height)) :
    ConfirmedAtTip req (db.markOutputConfirmed hash height blockHash).ledger := by
  constructor
  · intro o₁ ho₁ o₂ ho₂ hactive₁ hactive₂ hhash
    obtain ⟨o, ho, rfl⟩ := (AutoTable.mem_updateWhere _).mp ho₁
    obtain ⟨o', ho', rfl⟩ := (AutoTable.mem_updateWhere _).mp ho₂
    have heq : o = o' := by
      refine h.unique o ho o' ho' ?_ ?_ ?_
      · split at hactive₁ <;> exact hactive₁
      · split at hactive₂ <;> exact hactive₂
      · split at hhash <;> split at hhash <;> exact hhash
    rw [heq]
  · intro o₁ ho₁ hactive confirmedHeight hconfirmed
    obtain ⟨o, ho, rfl⟩ := (AutoTable.mem_updateWhere _).mp ho₁
    by_cases hmarked : (o.outputHash == hash) = true
    · rw [if_pos hmarked] at hactive hconfirmed ⊢
      -- the only undeleted output with the hash is the one that was found
      obtain ⟨o', ho', hactive', hacc, hhash, hmined⟩ := hdeep
      have heq : o = o' := h.unique o ho o' ho' hactive hactive'
        ((beq_iff_eq.mp hmarked).trans hhash.symm)
      cases hconfirmed
      subst heq
      exact ⟨hmined, hacc ▸ hrecorded⟩
    · rw [if_neg hmarked] at hactive hconfirmed ⊢
      exact h.deep o ho hactive confirmedHeight hconfirmed

theorem processConfirmations_confirmedAtTip (hreq : bp.requiredConfirmations = req) :
    Ensures (fun db => (ConfirmedAtTip req db.ledger ∧ NoneTooEarly req block accountId db.ledger) ∧
        Recorded db.ledger.scannedTipBlocks accountId (asI64 block.height))
      (BlockProcessor.processConfirmations bp now block accountId)
      (fun _ db => ConfirmedAtTip req db.ledger) := by
  let deepIn : List FixedHash → Ledger → Prop := fun hashes L => ∀ hash ∈ hashes,
    ∃ o ∈ L.outputs.rows, o.active = true ∧ o.accountId = accountId ∧ o.outputHash = hash ∧
      o.minedInBlockHeight + req ≤ asI64 block.height
  refine (confirmations_ensures (P := fun hashes L => ConfirmedAtTip req L ∧
    Recorded L.scannedTipBlocks accountId (asI64 block.height) ∧ deepIn hashes L)
    (fun db hash rest h => ?_)).mono (fun db h => ?_) (fun _ _ h => h.1)
  · obtain ⟨hconfirmed, hrecorded, hdeep⟩ := h
    refine ⟨confirmedAtTip_markOutputConfirmed hconfirmed (hdeep hash List.mem_cons_self)
      hrecorded, hrecorded, fun hash' hhash' => ?_⟩
    obtain ⟨o, ho, hrest⟩ := hdeep hash' (List.mem_cons_of_mem _ hhash')
    refine ⟨_, (AutoTable.mem_updateWhere _).mpr ⟨o, ho, rfl⟩, ?_⟩
    split <;> exact hrest
  · obtain ⟨⟨hconfirmed, hearly⟩, hrecorded⟩ := h
    refine ⟨hconfirmed, hrecorded, fun hash hhash => ?_⟩
    obtain ⟨u, hu, rfl⟩ := List.mem_map.mp hhash
    obtain ⟨o, ho, rfl⟩ := List.mem_map.mp hu
    obtain ⟨ho, hp⟩ := Table.mem_select.mp ho
    simp only [Bool.and_eq_true, beq_iff_eq, decide_eq_true_eq, Option.isNone_iff_eq_none] at hp
    obtain ⟨⟨⟨hacc, hbound⟩, hnone⟩, hactive⟩ := hp
    refine ⟨o, ho, hactive, hacc, rfl, ?_⟩
    rw [hreq] at hbound
    by_contra hlt
    exact hearly o ho ⟨hactive, hacc, hnone⟩ ⟨hbound, by omega⟩

theorem processBlock_confirmedAtTip (hreq : bp.requiredConfirmations = req) :
    Ensures (fun db => ConfirmedAtTip req db.ledger ∧ NoneTooEarly req block accountId db.ledger ∧
        NoneToCome req bp block accountId block.walletOutputs)
      (bp.processBlock env now block accountId) (fun _ db => ConfirmedAtTip req db.ledger) := by
  refine processBlock_ensures_of (R := fun L => (ConfirmedAtTip req L ∧
    NoneTooEarly req block accountId L) ∧ Recorded L.scannedTipBlocks accountId (asI64 block.height))
    (confirmedAtTip_rule env now) (fun db h => ?_) (processConfirmations_confirmedAtTip hreq)
  have hrecorded := tipRecorded_insertScannedTipBlock db accountId (asI64 block.height)
    block.blockHash
  have houtputs : (db.insertScannedTipBlock accountId (asI64 block.height) block.blockHash).outputs =
      db.outputs := by
    unfold Db.insertScannedTipBlock
    split <;> rfl
  refine ⟨⟨⟨?_, ?_⟩, ?_⟩, ?_⟩
  · simpa only [Db.ledger, houtputs] using h.1.unique
  · intro o ho hactive confirmedHeight hconfirmed
    simp only [Db.ledger, houtputs] at ho
    obtain ⟨hdeep, b, hb, hrow⟩ := h.1.deep o ho hactive confirmedHeight hconfirmed
    exact ⟨hdeep, b, hrecorded.kept b hb, hrow⟩
  · intro o ho
    simp only [Db.ledger, houtputs] at ho
    exact h.2 o ho
  · obtain ⟨b, hb, hacc, hheight, -⟩ := hrecorded.recorded
    exact ⟨b, hb, hacc, hheight⟩

/-- An undeleted output of the account that is not deep enough for the block but would pass its
    query, and how far the block has got with it. -/
def EarlyRow (req : Nat) (block : BlockScanResult) (accountId : AccountId)
    (Marked : OutputRow → Prop) (L : Ledger) : Prop :=
  ∃ o ∈ L.outputs.rows, o.active = true ∧ o.accountId = accountId ∧
    TooEarly req block o.minedInBlockHeight ∧ Marked o

theorem EarlyRow.updateOutputs {L : Ledger} {R U : OutputRow → Prop} {p : OutputRow → Bool}
    {f : OutputRow → OutputRow} (h : EarlyRow req block accountId R L)
    (hid : ∀ o, (f o).id = o.id) (hactive : ∀ o, (f o).active = o.active)
    (hacc : ∀ o, (f o).accountId = o.accountId)
    (hmined : ∀ o, (f o).minedInBlockHeight = o.minedInBlockHeight)
    (hmark : ∀ o, R o → U (if p o then f o else o)) :
    EarlyRow req block accountId U { L with outputs := L.outputs.updateWhere p f hid } := by
  obtain ⟨o, ho, hact, ha, hearly, hr⟩ := h
  refine ⟨_, (AutoTable.mem_updateWhere hid).mpr ⟨o, ho, rfl⟩, ?_, ?_, ?_, hmark o hr⟩
  · split
    · rw [hactive]; exact hact
    · exact hact
  · split
    · rw [hacc]; exact ha
    · exact ha
  · split
    · rw [hmined]; exact hearly
    · exact hearly

theorem EarlyRow.of_outputs {K L : Ledger} {R : OutputRow → Prop}
    (h : EarlyRow req block accountId R L) (heq : K.outputs = L.outputs) :
    EarlyRow req block accountId R K := by
  obtain ⟨o, ho, hrest⟩ := h
  exact ⟨o, heq ▸ ho, hrest⟩

/-- The row found too early, or one of the outputs still to come, stays until the confirmations. -/
theorem earlyRow_rule (env : ScanEnv) (now : Timestamp) :
    BlockRule env bp now block accountId
      (fun rest L => EarlyRow req block accountId (·.confirmedHeight = none) L ∨
        ∃ w ∈ rest, bp.walletIndexToAccountId[w.2.2]? = some accountId ∧
          TooEarly req block (asI64 block.height))
      (fun _ => EarlyRow req block accountId (·.confirmedHeight = none)) (fun _ => True) where
  skip w rest L hidx h := by
    refine h.imp_right (fun ⟨w', hw', hrest⟩ => ?_)
    rcases List.mem_cons.mp hw' with rfl | hw'
    · exact absurd hrest.1 hidx
    · exact ⟨w', hw', hrest⟩
  credit w rest key memo payref id db db' hidx hins h := by
    obtain ⟨timestamp, -, -, -, rfl⟩ := insertOutput_ok hins
    rcases h with ⟨o, ho, hrest⟩ | ⟨w', hw', hidx', hearly⟩
    · exact Or.inl ⟨o, (AutoTable.mem_insert (fun _ => rfl)).mpr (Or.inl ho), hrest⟩
    · rcases List.mem_cons.mp hw' with rfl | hw'
      · exact Or.inl ⟨_, (AutoTable.mem_insert (fun _ => rfl)).mpr (Or.inr rfl), rfl, rfl, hearly, rfl⟩
      · exact Or.inr ⟨w', hw', hidx', hearly⟩
  outputsDone L h := h.resolve_right (fun ⟨_, hw, _⟩ => by cases hw)
  ignore _ _ _ _ h := h
  debit hash rest info timestamp inputId db _ _ h := by
    have hsame := h.of_outputs (K := (db.insertOrIgnoreInput accountId info.id block.height
      block.blockHash timestamp).ledger) (outputs_insertOrIgnoreInput _ _ _ _ _ _)
    obtain ⟨o, ho, hrest⟩ := hsame.updateOutputs (p := fun o => o.id == info.id)
      (f := fun o => { o with status := .spent }) (U := (·.confirmedHeight = none)) (fun _ => rfl)
      (fun _ => rfl) (fun _ => rfl) (fun _ => rfl) (fun o hnone => by split <;> exact hnone)
    exact ⟨o, ho, hrest⟩
  record _ _ := trivial
  confirm _ _ _ := trivial

/-- The block confirms the row that is found too early. -/
theorem processConfirmations_earlyRow (hreq : bp.requiredConfirmations = req) :
    Ensures (fun db => EarlyRow req block accountId (·.confirmedHeight = none) db.ledger)
      (BlockProcessor.processConfirmations bp now block accountId)
      (fun _ db => EarlyRow req block accountId
        (·.confirmedHeight = some (asI64 block.height)) db.ledger) := by
  refine (confirmations_ensures (P := fun hashes L => EarlyRow req block accountId
    (fun o => o.outputHash ∈ hashes ∨ o.confirmedHeight = some (asI64 block.height)) L)
    (fun db hash rest h => ?_)).mono (fun db h => ?_) (fun _ db h => ?_)
  · refine h.updateOutputs (p := fun o => o.outputHash == hash) (f := fun o => { o with
      confirmedHeight := some (asI64 block.height)
      confirmedHash := some block.blockHash }) (fun _ => rfl) (fun _ => rfl) (fun _ => rfl)
      (fun _ => rfl) (fun o hmark => ?_)
    by_cases hhash : o.outputHash = hash
    · exact Or.inr (by simp [hhash])
    · simp only [beq_iff_eq, hhash, if_false]
      exact hmark.imp_left (fun hmem => (List.mem_cons.mp hmem).resolve_left hhash)
  · obtain ⟨o, ho, hactive, hacc, hearly, hnone⟩ := h
    refine ⟨o, ho, hactive, hacc, hearly, Or.inl ?_⟩
    have hbound : o.minedInBlockHeight ≤ asI64 (block.height - bp.requiredConfirmations) := by
      rw [hreq]
      exact hearly.1
    refine List.mem_map.mpr ⟨_, List.mem_map.mpr ⟨o, Table.mem_select.mpr ⟨ho, ?_⟩, rfl⟩, rfl⟩
    simp [hactive, hacc, hnone, hbound]
  · obtain ⟨o, ho, hactive, hacc, hearly, hmark⟩ := h
    exact ⟨o, ho, hactive, hacc, hearly, hmark.resolve_left (fun hmem => by cases hmem)⟩

theorem processBlock_earlyRow (hreq : bp.requiredConfirmations = req) :
    Ensures (fun db => EarlyRow req block accountId (·.confirmedHeight = none) db.ledger ∨
        ∃ w ∈ block.walletOutputs, bp.walletIndexToAccountId[w.2.2]? = some accountId ∧
          TooEarly req block (asI64 block.height))
      (bp.processBlock env now block accountId)
      (fun _ db => EarlyRow req block accountId
        (·.confirmedHeight = some (asI64 block.height)) db.ledger) := by
  refine processBlock_ensures_of (R := EarlyRow req block accountId (·.confirmedHeight = none))
    (earlyRow_rule env now) (fun db h => h.of_outputs ?_) (processConfirmations_earlyRow hreq)
  simp only [Db.ledger, Db.insertScannedTipBlock]
  split <;> rfl

end Blocks

/-! ## Runs -/

section Runs

variable {env : ScanEnv} {db db' : Db} {a : LedgerAction}

/-- A rollback that leaves no output confirmed at or above the fork. -/
theorem ConfirmedAtTip.rolledBack {accountId : AccountId} {height : Nat} {now : Timestamp}
    (h : ConfirmedAtTip req db.ledger) (hrolled : RolledBack accountId height now db db')
    (hgood : ∀ o ∈ db.outputs.rows, o.active = true → o.accountId = accountId →
      o.minedInBlockHeight < asI64 height → ∀ confirmedHeight ∈ o.confirmedHeight,
        confirmedHeight < asI64 height) : ConfirmedAtTip req db'.ledger := by
  have hout : ∀ o ∈ db'.outputs.rows, o.active = true →
      o ∈ db.outputs.rows ∧ o.survives accountId height := by
    intro o ho hactive
    rw [hrolled.outputs] at ho
    exact (mem_setOutputsDeleted_active hactive).mp ho
  constructor
  · intro o ho o' ho' hactive hactive'
    exact h.unique o (hout o ho hactive).1 o' (hout o' ho' hactive').1 hactive hactive'
  · intro o ho hactive confirmedHeight hconfirmed
    obtain ⟨hmem, -, hbelow⟩ := hout o ho hactive
    obtain ⟨hdeep, b, hb, hacc, hheight⟩ := h.deep o hmem hactive confirmedHeight hconfirmed
    refine ⟨hdeep, b, ?_, hacc, hheight⟩
    simp only [Db.ledger, hrolled.tips, Db.deleteScannedTipBlocksFromHeight]
    refine AutoTable.mem_deleteWhere.mpr ⟨hb, ?_⟩
    -- the block that confirmed the output is below the fork when the output is the account's
    by_cases hown : o.accountId = accountId
    · have hlow : o.minedInBlockHeight < asI64 height := not_le.mp (fun hle => hbelow ⟨hown, hle⟩)
      have := hgood o hmem hactive hown hlow confirmedHeight hconfirmed
      simp [hheight, this]
    · simp [hacc, hown]

theorem confirmedAtTip_step (hreq : a.Requires req) (h : ConfirmedAtTip req db.ledger)
    (hgood : ConfirmsInDepth req db a) (hstep : ledgerStep env db a = some db') :
    ConfirmedAtTip req db'.ledger := by
  cases a with
  | processBlock bp block accountId now =>
      refine of_runOk_map (P := fun L => ConfirmedAtTip req L ∧ NoneTooEarly req block accountId L ∧
        NoneToCome req bp block accountId block.walletOutputs) (Q := ConfirmedAtTip req)
        (processBlock_confirmedAtTip hreq) ⟨h, fun o ho hunconfirmed => ?_, hgood.2⟩ hstep
      exact hgood.1 o ho hunconfirmed.1 hunconfirmed.2.1 hunconfirmed.2.2
  | lockOutput outputId lockedByRequestId lockedAt =>
      cases hstep
      have hf : KeepsConfirmation (fun o => { o with
          status := .locked
          lockedByRequestId := some lockedByRequestId
          lockedAt := some lockedAt }) :=
        ⟨fun _ => rfl, fun _ => rfl, fun _ => rfl, fun _ => rfl, fun _ => rfl, fun _ => rfl⟩
      exact h.updateOutputs hf
  | unlockOutputsForRequest lockedByRequestId =>
      cases hstep
      have hf : KeepsConfirmation (fun o => { o with
          status := .unspent
          lockedAt := none
          lockedByRequestId := none }) :=
        ⟨fun _ => rfl, fun _ => rfl, fun _ => rfl, fun _ => rfl, fun _ => rfl, fun _ => rfl⟩
      exact h.updateOutputs hf
  | rollbackFromHeight accountId height webhookConfig now =>
      obtain ⟨⟨info, db₁⟩, hrun, rfl⟩ := Option.map_eq_some_iff.mp hstep
      obtain ⟨c', hrun', rfl⟩ := runOk_eq_some.mp hrun
      exact h.rolledBack (rollbackFromHeight_rolledBack hrun') hgood

/-- A call that breaks the condition leaves an output that is confirmed too high. -/
theorem confirmsInDepth_of_step (hreq : a.Requires req)
    (hstep : ledgerStep env db a = some db') (h' : ConfirmedInDepth req db') :
    ConfirmsInDepth req db a := by
  cases a with
  | processBlock bp block accountId now =>
      have hnone : ¬(EarlyRow req block accountId (·.confirmedHeight = none) db.ledger ∨
          ∃ w ∈ block.walletOutputs, bp.walletIndexToAccountId[w.2.2]? = some accountId ∧
            TooEarly req block (asI64 block.height)) := by
        intro hearly
        obtain ⟨o, ho, hactive, -, hlow, hconfirmed⟩ := of_runOk_map
          (P := fun L => EarlyRow req block accountId (·.confirmedHeight = none) L ∨
            ∃ w ∈ block.walletOutputs, bp.walletIndexToAccountId[w.2.2]? = some accountId ∧
              TooEarly req block (asI64 block.height))
          (Q := EarlyRow req block accountId (·.confirmedHeight = some (asI64 block.height)))
          (processBlock_earlyRow hreq) hearly hstep
        exact absurd (h' o ho hactive _ hconfirmed).1 (not_le.mpr hlow.2)
      obtain ⟨hrow, hcome⟩ := not_or.mp hnone
      exact ⟨fun o ho hactive hacc hunconfirmed hearly =>
          hrow ⟨o, ho, hactive, hacc, hearly, hunconfirmed⟩,
        fun w hw hidx hearly => hcome ⟨w, hw, hidx, hearly⟩⟩
  | lockOutput outputId lockedByRequestId lockedAt => trivial
  | unlockOutputsForRequest lockedByRequestId => trivial
  | rollbackFromHeight accountId height webhookConfig now =>
      intro o ho hactive hacc hlow confirmedHeight hconfirmed
      obtain ⟨⟨info, db₁⟩, hrun, rfl⟩ := Option.map_eq_some_iff.mp hstep
      obtain ⟨c', hrun', rfl⟩ := runOk_eq_some.mp hrun
      have hrolled := rollbackFromHeight_rolledBack hrun'
      have ho' : o ∈ c'.store.outputs.rows := by
        rw [hrolled.outputs]
        exact (mem_setOutputsDeleted_active hactive).mpr
          ⟨ho, hactive, fun hand => absurd hand.2 (not_le_of_gt hlow)⟩
      obtain ⟨-, tip, htip, hle, -⟩ := h' o ho' hactive confirmedHeight hconfirmed
      -- the highest block left for the account is below the fork
      have hmem := (hrolled.places.tipHeights).mp (List.max?_eq_some_iff.mp htip).1
      have := hmem.2 hacc
      omega

/-- With one number of required confirmations, every state that a run of scan, lock and rollback
    calls from the empty database reaches has its outputs confirmed in depth if and only if no block
    of the run finds an unconfirmed output too early and no rollback leaves an output that was
    confirmed at or above the fork. -/
theorem confirmedInDepth_always_iff (env : ScanEnv) (req : Nat) (as : List LedgerAction)
    (hreq : ∀ a ∈ as, a.Requires req) :
    Transition.Always (ledgerStep env) (ConfirmedInDepth req) Db.empty as ↔
      Transition.Along (ledgerStep env) (ConfirmsInDepth req) Db.empty as := by
  have hrequires : Transition.Along (ledgerStep env) (fun _ a => a.Requires req) Db.empty as :=
    Transition.along_of_forall _ hreq
  constructor
  · exact Transition.along_of_always (I := fun _ => True) (fun _ _ _ _ _ _ _ => trivial)
      (fun _ _ _ _ _ hk hstep h' => confirmsInDepth_of_step hk hstep h') trivial hrequires
  · intro hgood
    exact Transition.always_of_along (I := fun db => ConfirmedAtTip req db.ledger)
      (fun _ _ _ h hg hstep => confirmedAtTip_step hg.1 h hg.2 hstep)
      (fun _ h => h.confirmedInDepth) confirmedAtTip_empty (hrequires.and hgood)

end Runs

/-- Account 1 receives an output at height 1, and the blocks up to height 4 confirm it. -/
def confirmedAtFour : List LedgerAction :=
  let bp := BlockProcessor.withEventSender [(1, 7)] 3
  [.processBlock bp ⟨1, 101, [(500, { outputHash := 500, value := 10 }, 0)], [], 1000⟩ 1 1000,
    .processBlock bp ⟨2, 102, [], [], 1120⟩ 1 1120, .processBlock bp ⟨3, 103, [], [], 1240⟩ 1 1240,
    .processBlock bp ⟨4, 104, [], [], 1360⟩ 1 1360]

theorem confirmedAtFour_inDepth :
    (Transition.run (ledgerStep plainEnv) Db.empty confirmedAtFour).isSome = true ∧
      Transition.Always (ledgerStep plainEnv) (ConfirmedInDepth 3) Db.empty confirmedAtFour :=
  ⟨by decide +kernel, (confirmedInDepth_always_iff plainEnv 3 confirmedAtFour (by decide)).mpr
    (by decide +kernel)⟩

/-- A rollback to height 3 leaves the output confirmed at height 4, over a chain of two blocks. -/
theorem confirmedAtFour_rolledBack :
    let as := confirmedAtFour ++ [.rollbackFromHeight 1 3 none 1400]
    ¬Transition.Always (ledgerStep plainEnv) (ConfirmedInDepth 3) Db.empty as ∧
      ∃ db, Transition.run (ledgerStep plainEnv) Db.empty as = some db ∧
        (∃ o ∈ db.outputs.rows, o.active = true ∧ o.minedInBlockHeight = 1 ∧
          o.confirmedHeight = some 4) ∧ db.tipHeights 1 = [1, 2] := by
  refine ⟨by decide +kernel, ?_⟩
  obtain ⟨db, hrun, hq⟩ := Transition.exists_run_of_any (f := ledgerStep plainEnv)
    (s := Db.empty) (l := confirmedAtFour ++ [.rollbackFromHeight 1 3 none 1400])
    (q := fun db => decide ((∃ o ∈ db.outputs.rows, o.active = true ∧ o.minedInBlockHeight = 1 ∧
      o.confirmedHeight = some 4) ∧ db.tipHeights 1 = [1, 2])) (by decide +kernel)
  exact ⟨db, hrun, of_decide_eq_true hq⟩

end MinotariWallet
