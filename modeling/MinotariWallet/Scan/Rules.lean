import MinotariWallet.Scan.BlockProcessor
import MinotariWallet.Scan.Reorg

set_option autoImplicit false

/-! # Rules for `process_block` and `rollback_from_height`

The `Ledger` of a database are the tables that decide what the wallet owns and reserves; events,
webhooks, displayed transactions and payment-reference history are records of it. A claim about the
ledger follows from what each kind of statement does to it: `BlockRule` and `RollbackRule` list
these, one condition per statement, and `processBlock_ensures` and `rollbackFromHeight_ensures` put
them together along the loops of the two functions. -/

namespace MinotariWallet

open Sql Exec

structure Ledger where
  outputs : AutoTable OutputRow
  inputs : AutoTable InputRow
  balanceChanges : AutoTable BalanceChangeRow
  scannedTipBlocks : AutoTable ScannedTipBlockRow
  pendingTransactions : Table PendingTransactionRow
  completedTransactions : Table CompletedTransactionRow

def Db.ledger (db : Db) : Ledger where
  outputs := db.outputs
  inputs := db.inputs
  balanceChanges := db.balanceChanges
  scannedTipBlocks := db.scannedTipBlocks
  pendingTransactions := db.pendingTransactions
  completedTransactions := db.completedTransactions

/-! ## What does not touch the ledger -/

/-- Webhooks are put into their queue, and nothing else changes. -/
theorem triggerWebhooks_keepsView {τ : Type} {v : Db → τ}
    (hv : ∀ (db : Db) queue, v { db with webhookQueue := queue } = v db)
    (accountId : AccountId) (generatedEvents : List (Id × WalletEvent))
    (webhookConfig : Option WebhookTriggerConfig) (now : Timestamp) :
    Keeps v (triggerWebhooks accountId generatedEvents webhookConfig now) := by
  cases webhookConfig with
  | none => exact Keeps.pure
  | some config =>
      refine Keeps.forM (fun e => Keeps.ite (Keeps.bind ?_ (fun balance => ?_)) Keeps.pure)
      · exact Keeps.bind Keeps.tryQuery (fun _ => Keeps.bind Keeps.tryQuery (fun _ => Keeps.pure))
      · exact Keeps.bind (Keeps.insert (fun db => hv db _)) (fun _ => Keeps.pure)

theorem triggerWebhooks_keeps (accountId : AccountId) (generatedEvents : List (Id × WalletEvent))
    (webhookConfig : Option WebhookTriggerConfig) (now : Timestamp) :
    Keeps Db.ledger (triggerWebhooks accountId generatedEvents webhookConfig now) :=
  triggerWebhooks_keepsView (fun _ _ => rfl) accountId generatedEvents webhookConfig now

theorem logWalletEvents_keepsView {τ : Type} {v : Db → τ} {accountId : AccountId}
    (generatedEvents : List (Id × WalletEvent)) {events : List WalletEvent}
    (hv : ∀ event ∈ events, ∀ db : Db, v (db.insertWalletEvent accountId event).2 = v db) :
    Keeps v (events.foldlM (logWalletEvent accountId) generatedEvents) := by
  induction events generalizing generatedEvents with
  | nil => exact Keeps.pure
  | cons event events ih =>
      rw [List.foldlM_cons]
      refine Keeps.bind (Keeps.bind (Keeps.insert (hv event List.mem_cons_self))
        (fun _ => Keeps.pure)) (fun logged => ?_)
      exact ih logged (fun event' h => hv event' (List.mem_cons_of_mem event h))

theorem logWalletEvents_keeps (accountId : AccountId) (generatedEvents : List (Id × WalletEvent))
    (events : List WalletEvent) :
    Keeps Db.ledger (events.foldlM (logWalletEvent accountId) generatedEvents) :=
  logWalletEvents_keepsView generatedEvents (fun _ _ _ => rfl)

/-- A reversal writes balance changes, and nothing else. -/
theorem reverseBalanceChange_keepsView {τ : Type} {v : Db → τ}
    (hv : ∀ (db : Db) table, v { db with balanceChanges := table } = v db)
    (original : Db → Option Id) (reversal : Option Id → BalanceChange) :
    Keeps v (reverseBalanceChange original reversal) := by
  refine Keeps.bind Keeps.query (fun found => ?_)
  have hinsert : Keeps v (do let _ ← insert (·.insertBalanceChange (reversal found)) : DbM Unit) :=
    Keeps.bind (Keeps.insert (fun db => hv db _)) (fun _ => Keeps.pure)
  cases found with
  | none => exact hinsert
  | some id => exact Keeps.bind (Keeps.update (fun db => hv db _)) (fun _ => hinsert)

/-- An insert of a displayed transaction writes the table, and nothing else. -/
theorem insertDisplayedTransaction_keepsView {τ : Type} {v : Db → τ}
    (hv : ∀ (db : Db) table, v { db with displayedTransactions := table } = v db) (db : Db)
    (tx : DisplayedTransaction) : v (db.insertDisplayedTransaction tx) = v db := by
  unfold Db.insertDisplayedTransaction
  split
  · exact hv db _
  · exact hv db _

theorem insertDisplayedTransaction_ledger (db : Db) (tx : DisplayedTransaction) :
    (db.insertDisplayedTransaction tx).ledger = db.ledger :=
  insertDisplayedTransaction_keepsView (fun _ _ => rfl) db tx

theorem saveAndEmitDisplayedTransactions_keepsView {τ : Type} {v : Db → τ}
    (hv : ∀ (db : Db) table, v { db with displayedTransactions := table } = v db) (env : ScanEnv)
    (bp : BlockProcessor) (blockHeight : Nat) (accountId : AccountId) (accountViewKey : PrivateKey)
    (accumulator : BlockEventAccumulator) :
    Keeps v (BlockProcessor.saveAndEmitDisplayedTransactions env bp blockHeight accountId
      accountViewKey accumulator) := by
  refine Keeps.ite Keeps.pure (Keeps.bind ?_ (fun transactions => ?_))
  · refine Keeps.bind Keeps.query (fun current => Keeps.bind Keeps.query (fun pendingTxs => ?_))
    dsimp only
    split
    · exact Keeps.pure
    · exact Keeps.throw
  · refine Keeps.bind (Keeps.forM (fun _ => Keeps.update (fun db => hv db _))) (fun _ => ?_)
    exact Keeps.bind (Keeps.forM (fun tx =>
      Keeps.update (fun db => insertDisplayedTransaction_keepsView hv db tx)))
      (fun _ => Keeps.pure)

theorem saveAndEmitDisplayedTransactions_keeps (env : ScanEnv) (bp : BlockProcessor)
    (blockHeight : Nat) (accountId : AccountId) (accountViewKey : PrivateKey)
    (accumulator : BlockEventAccumulator) :
    Keeps Db.ledger (BlockProcessor.saveAndEmitDisplayedTransactions env bp blockHeight accountId
      accountViewKey accumulator) :=
  saveAndEmitDisplayedTransactions_keepsView (fun _ _ => rfl) env bp blockHeight accountId
    accountViewKey accumulator

theorem markDisplayedTransactionsReorganizedAndReturn_keeps (accountId : AccountId)
    (fromHeight : Nat) :
    Keeps Db.ledger (markDisplayedTransactionsReorganizedAndReturn accountId fromHeight) :=
  Keeps.bind Keeps.query (fun _ => Keeps.foldlM (fun _ _ =>
    Keeps.bind (Keeps.update (fun _ => rfl)) (fun _ => Keeps.pure)))

theorem saveDisplayedTransactionPayrefsBeforeReorg_keeps (accountId : AccountId)
    (reorgHeight : Nat) (now : Timestamp) :
    Keeps Db.ledger (saveDisplayedTransactionPayrefsBeforeReorg accountId reorgHeight now) :=
  Keeps.bind Keeps.query (fun _ => Keeps.forM (fun _ => Keeps.forM (fun _ =>
    Keeps.update (fun _ => rfl))))

theorem saveCompletedTransactionPayrefsBeforeReorg_keeps (accountId : AccountId)
    (reorgHeight : Nat) (now : Timestamp) :
    Keeps Db.ledger (saveCompletedTransactionPayrefsBeforeReorg accountId reorgHeight now) :=
  Keeps.bind Keeps.query (fun _ => Keeps.forM (fun _ => Keeps.forM (fun _ =>
    Keeps.update (fun _ => rfl))))

/-! ## Blocks -/

section Block

variable (env : ScanEnv) (bp : BlockProcessor) (now : Timestamp) (block : BlockScanResult)
  (accountId : AccountId)

/-- What each statement of `process_block` does to the ledger: `O` while the outputs are processed
    (with the list still to come), `I` while the inputs are, `T` from the recorded block on. -/
structure BlockRule (O : List (FixedHash × WalletOutput × Nat) → Ledger → Prop)
    (I : List FixedHash → Ledger → Prop) (T : Ledger → Prop) : Prop where
  skip : ∀ w rest L, bp.walletIndexToAccountId[w.2.2]? ≠ some accountId → O (w :: rest) L →
    O rest L
  credit : ∀ (w : FixedHash × WalletOutput × Nat) rest key (memo : MemoInfo) payref id (db db' : Db),
    bp.walletIndexToAccountId[w.2.2]? = some accountId →
    db.insertOutput env.toExternals accountId key w.1 w.2.1 block.height block.blockHash
      block.minedTimestamp memo.parsed memo.hex payref w.2.1.isBurned = .ok (id, db') →
    O (w :: rest) db.ledger →
    O rest (db'.insertBalanceChange
      (makeBalanceChangeForOutput accountId id block.minedTimestamp block.height w.2.1
        now)).2.ledger
  outputsDone : ∀ L, O [] L → I block.inputs L
  ignore : ∀ h rest (db : Db), db.getOutputInfoByHashForAccount accountId h = none →
    I (h :: rest) db.ledger → I rest db.ledger
  debit : ∀ h rest info timestamp inputId (db : Db),
    db.getOutputInfoByHashForAccount accountId h = some info →
    (db.insertOrIgnoreInput accountId info.id block.height block.blockHash
      timestamp).getActiveInputId info.id = .ok inputId →
    I (h :: rest) db.ledger →
    I rest (((db.insertOrIgnoreInput accountId info.id block.height block.blockHash
      timestamp).insertBalanceChange
        (makeBalanceChangeForInput accountId inputId info.output.value block now)).2.updateOutputStatus
          info.id .spent).ledger
  record : ∀ db : Db, I [] db.ledger →
    T (db.insertScannedTipBlock accountId (asI64 block.height) block.blockHash).ledger
  confirm : ∀ (db : Db) hash, T db.ledger →
    T (db.markOutputConfirmed hash block.height block.blockHash).ledger

variable {env bp now block accountId}
variable {O : List (FixedHash × WalletOutput × Nat) → Ledger → Prop}
  {I : List FixedHash → Ledger → Prop} {T : Ledger → Prop}

theorem processOutput_ensures (r : BlockRule env bp now block accountId O I T)
    (key : PrivateKey) (st : BlockProcessor.LoopState) (w : FixedHash × WalletOutput × Nat)
    (rest : List (FixedHash × WalletOutput × Nat)) :
    Ensures (fun db => O (w :: rest) db.ledger)
      (BlockProcessor.processOutput env bp now block accountId key st w)
      (fun _ db => O rest db.ledger) := by
  obtain ⟨hash, output, walletIdx⟩ := w
  unfold BlockProcessor.processOutput
  dsimp only
  split
  · next hidx =>
      exact Ensures.pure (fun db h => r.skip (hash, output, walletIdx) rest _ (by simp [hidx]) h)
  · next mapped hidx =>
      refine Ensures.ite (fun hne => ?_) (fun heq => ?_)
      · refine Ensures.pure (fun db h => r.skip (hash, output, walletIdx) rest _ ?_ h)
        simpa [hidx] using hne
      · have hmapped : bp.walletIndexToAccountId[walletIdx]? = some accountId := by
          rw [hidx, not_not.mp heq]
        refine Ensures.bind (Q := fun id db => O rest (db.insertBalanceChange
          (makeBalanceChangeForOutput accountId id block.minedTimestamp block.height output
            now)).2.ledger) (Ensures.stmt (fun db id db' h hins => ?_)) (fun id => ?_)
        · exact r.credit (hash, output, walletIdx) rest _ _ _ id db db' hmapped hins h
        · refine Ensures.bind (Q := fun _ db => O rest (db.insertBalanceChange
            (makeBalanceChangeForOutput accountId id block.minedTimestamp block.height output
              now)).2.ledger) (Ensures.insert (fun db h => h)) (fun eventId => ?_)
          refine Ensures.bind (Q := fun _ db => O rest db.ledger)
            (Ensures.insert (fun db h => h)) (fun _ => ?_)
          exact Ensures.pure (fun db h => h)

theorem processInput_ensures (r : BlockRule env bp now block accountId O I T)
    (acc : BlockEventAccumulator) (h : FixedHash) (rest : List FixedHash) :
    Ensures (fun db => I (h :: rest) db.ledger)
      (BlockProcessor.processInput now block accountId acc h)
      (fun _ db => I rest db.ledger) := by
  unfold BlockProcessor.processInput
  refine Ensures.bind (Q := fun info db => I (h :: rest) db.ledger ∧
    db.getOutputInfoByHashForAccount accountId h = info)
    (Ensures.query (fun db hI => ⟨hI, rfl⟩)) (fun info => ?_)
  cases info with
  | none => exact Ensures.pure (fun db hI => r.ignore h rest db hI.2 hI.1)
  | some info =>
      refine Ensures.bind (Q := fun inputId db => I rest ((db.insertBalanceChange
        (makeBalanceChangeForInput accountId inputId info.output.value block
          now)).2.updateOutputStatus info.id .spent).ledger) ?_ (fun inputId => ?_)
      · unfold insertInput
        split
        · exact Ensures.throw
        · next timestamp _ =>
            refine Ensures.bind (Q := fun _ db => ∃ db₀ : Db, I (h :: rest) db₀.ledger ∧
              db₀.getOutputInfoByHashForAccount accountId h = some info ∧
              db = db₀.insertOrIgnoreInput accountId info.id block.height block.blockHash timestamp)
              (Ensures.update (fun db hI => ⟨db, hI.1, hI.2, rfl⟩)) (fun _ => ?_)
            refine Ensures.tryQuery (fun db inputId hdb hid => ?_)
            obtain ⟨db₀, hI, hinfo, rfl⟩ := hdb
            exact r.debit h rest info timestamp inputId db₀ hinfo hid hI
      · refine Ensures.bind (Q := fun _ db => I rest (db.updateOutputStatus info.id .spent).ledger)
          (Ensures.insert (fun db hI => hI)) (fun _ => ?_)
        refine Ensures.bind (Q := fun _ db => I rest db.ledger)
          (Ensures.update (fun db hI => hI)) (fun _ => ?_)
        exact Ensures.pure (fun db hI => hI)

theorem processOutputs_ensures (r : BlockRule env bp now block accountId O I T) (key : PrivateKey)
    (acc : BlockEventAccumulator) :
    Ensures (fun db => O block.walletOutputs db.ledger)
      (BlockProcessor.processOutputs env bp now block accountId key acc)
      (fun _ db => O [] db.ledger) := by
  unfold BlockProcessor.processOutputs
  refine Ensures.bind (Ensures.foldlM (I := fun rest _ (db : Db) => O rest db.ledger) _ _
    (fun w rest st => processOutput_ensures r key st w rest)) (fun st => ?_)
  exact Ensures.bind ((triggerWebhooks_keeps _ _ _ _).ensures (O []))
    (fun _ => Ensures.pure (fun db h => h))

theorem processInputs_ensures (r : BlockRule env bp now block accountId O I T)
    (acc : BlockEventAccumulator) :
    Ensures (fun db => O [] db.ledger) (BlockProcessor.processInputs now block accountId acc)
      (fun _ db => I [] db.ledger) :=
  (Ensures.foldlM (I := fun rest _ (db : Db) => I rest db.ledger) block.inputs acc
    (fun h rest acc => processInput_ensures r acc h rest)).mono
    (fun _ h => r.outputsDone _ h) (fun _ _ h => h)

/-- `process_confirmations` marks the hashes of the unconfirmed outputs one by one. -/
theorem confirmations_ensures {P : List FixedHash → Ledger → Prop}
    (hmark : ∀ (db : Db) hash rest, P (hash :: rest) db.ledger →
      P rest (db.markOutputConfirmed hash block.height block.blockHash).ledger) :
    Ensures (fun db => P ((db.getUnconfirmedOutputs accountId block.height
        bp.requiredConfirmations).map (·.outputHash)) db.ledger)
      (BlockProcessor.processConfirmations bp now block accountId) (fun _ db => P [] db.ledger) := by
  unfold BlockProcessor.processConfirmations
  refine Ensures.bind (Q := fun unconfirmed db => P (unconfirmed.map (·.outputHash)) db.ledger)
    (Ensures.query (fun db h => h)) (fun unconfirmed => ?_)
  refine Ensures.bind (Q := fun _ db => P [] db.ledger) ?_ (fun events => ?_)
  · let todo : List UnconfirmedOutputRow → Db → Prop := fun rest db =>
      P (rest.map (·.outputHash)) db.ledger
    refine Ensures.foldlM (I := fun rest _ => todo rest) _ _ (fun o rest events => ?_)
    refine Ensures.bind (Q := fun _ => todo (o :: rest)) (Ensures.insert (fun db h => h))
      (fun _ => ?_)
    refine Ensures.bind (Q := fun _ => todo rest)
      (Ensures.update (fun db h => hmark db o.outputHash _ h)) (fun _ => ?_)
    exact Ensures.pure (fun db h => h)
  · exact Ensures.bind ((triggerWebhooks_keeps _ _ _ _).ensures (P []))
      (fun _ => Ensures.pure (fun db h => h))

theorem processConfirmations_ensures (r : BlockRule env bp now block accountId O I T) :
    Ensures (fun db => T db.ledger) (BlockProcessor.processConfirmations bp now block accountId)
      (fun _ db => T db.ledger) :=
  confirmations_ensures (P := fun _ => T) (fun db hash _ h => r.confirm db hash h)

/-- A block processed to its end: the loops over it take the ledger from `O` to `I []`, the rest of
    it from there to `U`. -/
theorem processBlock_ensures_of {R U : Ledger → Prop}
    (r : BlockRule env bp now block accountId O I T)
    (hrecord : ∀ db : Db, I [] db.ledger →
      R (db.insertScannedTipBlock accountId (asI64 block.height) block.blockHash).ledger)
    (hconfirm : Ensures (fun db => R db.ledger)
      (BlockProcessor.processConfirmations bp now block accountId) (fun _ db => U db.ledger)) :
    Ensures (fun db => O block.walletOutputs db.ledger)
      (BlockProcessor.processBlock env bp now block accountId) (fun _ db => U db.ledger) := by
  unfold BlockProcessor.processBlock
  refine Ensures.bind (Q := fun _ db => O block.walletOutputs db.ledger)
    (Ensures.lift (fun db key h _ => h)) (fun key => ?_)
  refine Ensures.bind (processOutputs_ensures r key _) (fun st => ?_)
  refine Ensures.bind (processInputs_ensures r _) (fun acc => ?_)
  refine Ensures.bind (Q := fun _ db => R db.ledger)
    (Ensures.update (fun db h => hrecord db h)) (fun _ => ?_)
  refine Ensures.bind hconfirm (fun confirmed => ?_)
  exact Ensures.bind ((saveAndEmitDisplayedTransactions_keeps _ _ _ _ _ _).ensures U)
    (fun ready => Ensures.pure (fun db h => h))

/-- A block processed to its end takes the ledger from `O` to `T`. -/
theorem processBlock_ensures (r : BlockRule env bp now block accountId O I T) :
    Ensures (fun db => O block.walletOutputs db.ledger)
      (BlockProcessor.processBlock env bp now block accountId) (fun _ db => T db.ledger) :=
  processBlock_ensures_of r r.record (processConfirmations_ensures r)

/-- The outputs after a part of a block: new rows are not locked, and the others keep their lock or
    are spent. -/
structure ScannedFrom (before after : AutoTable OutputRow) : Prop where
  seq : before.seq ≤ after.seq
  rows : ∀ o' ∈ after.rows,
    (before.seq < o'.id ∧ o'.status ≠ .locked ∧ o'.lockedByRequestId = none) ∨
    ∃ o ∈ before.rows, o.id = o'.id ∧ o'.lockedByRequestId = o.lockedByRequestId ∧
      o'.active = o.active ∧ (o'.status = o.status ∨ o'.status = .spent)

theorem ScannedFrom.refl (outputs : AutoTable OutputRow) : ScannedFrom outputs outputs :=
  ⟨Nat.le_refl _, fun o ho => Or.inr ⟨o, ho, rfl, rfl, rfl, Or.inl rfl⟩⟩

theorem ScannedFrom.insert {before after : AutoTable OutputRow} (h : ScannedFrom before after)
    {mk : Id → OutputRow} (hmk : ∀ k, (mk k).id = k)
    (hnew : ∀ k, (mk k).status ≠ .locked ∧ (mk k).lockedByRequestId = none) :
    ScannedFrom before (after.insert mk hmk) := by
  refine ⟨Nat.le_succ_of_le h.seq, fun o' ho' => ?_⟩
  rcases (AutoTable.mem_insert hmk).mp ho' with ho' | rfl
  · exact h.rows o' ho'
  · refine Or.inl ⟨?_, hnew _⟩
    rw [hmk]
    exact Nat.lt_succ_of_le h.seq

theorem ScannedFrom.updateWhere {before after : AutoTable OutputRow} (h : ScannedFrom before after)
    {p : OutputRow → Bool} {f : OutputRow → OutputRow} (hid : ∀ o, (f o).id = o.id)
    (hlock : ∀ o, (f o).lockedByRequestId = o.lockedByRequestId)
    (hactive : ∀ o, (f o).active = o.active)
    (hstatus : ∀ o, (f o).status = o.status ∨ (f o).status = .spent) :
    ScannedFrom before (after.updateWhere p f hid) := by
  refine ⟨h.seq, fun o' ho' => ?_⟩
  obtain ⟨o₁, ho₁, rfl⟩ := (AutoTable.mem_updateWhere hid).mp ho'
  by_cases hp : p o₁ = true
  · rw [if_pos hp, hid, hlock, hactive]
    rcases h.rows o₁ ho₁ with ⟨hnew, hnot, hfree⟩ | ⟨o, ho, hoid, hol, hoa, hos⟩
    · refine Or.inl ⟨hnew, ?_, hfree⟩
      rcases hstatus o₁ with hs | hs
      · rw [hs]; exact hnot
      · rw [hs]; decide
    · refine Or.inr ⟨o, ho, hoid, hol, hoa, ?_⟩
      rcases hstatus o₁ with hs | hs
      · rw [hs]; exact hos
      · exact Or.inr hs
  · rw [if_neg hp]
    exact h.rows o₁ ho₁

/-- The outputs, pending and completed transactions while a block is processed. -/
def scannedTables (db : Db) (L : Ledger) : Prop :=
  ScannedFrom db.outputs L.outputs ∧ L.pendingTransactions = db.pendingTransactions ∧
    L.completedTransactions = db.completedTransactions

theorem scannedTables_rule (env : ScanEnv) (bp : BlockProcessor) (now : Timestamp)
    (block : BlockScanResult) (accountId : AccountId) (db : Db) :
    BlockRule env bp now block accountId (fun _ => scannedTables db) (fun _ => scannedTables db)
      (scannedTables db) where
  skip _ _ _ _ h := h
  credit w rest key memo payref id db₁ db₂ _ hins h := by
    obtain ⟨timestamp, -, -, -, rfl⟩ := insertOutput_ok hins
    obtain ⟨houtputs, hpending, hcompleted⟩ := h
    exact ⟨houtputs.insert (by intro _; rfl) (by intro _; simp [newOutputRow]), hpending, hcompleted⟩
  outputsDone _ h := h
  ignore _ _ _ _ h := h
  debit hash rest info timestamp inputId db₁ _ _ h := by
    obtain ⟨houtputs, hpending, hcompleted⟩ := h
    have hframe : (db₁.insertOrIgnoreInput accountId info.id block.height block.blockHash
        timestamp).outputs = db₁.outputs ∧
        (db₁.insertOrIgnoreInput accountId info.id block.height block.blockHash
          timestamp).pendingTransactions = db₁.pendingTransactions ∧
        (db₁.insertOrIgnoreInput accountId info.id block.height block.blockHash
          timestamp).completedTransactions = db₁.completedTransactions := by
      unfold Db.insertOrIgnoreInput
      split <;> exact ⟨rfl, rfl, rfl⟩
    have houtputs' : ScannedFrom db.outputs (db₁.insertOrIgnoreInput accountId info.id block.height
        block.blockHash timestamp).outputs := by
      rw [hframe.1]
      exact houtputs
    exact ⟨houtputs'.updateWhere (by intro _; rfl) (by intro _; rfl) (by intro _; rfl)
      (by intro _; exact Or.inr rfl), hframe.2.1.trans hpending, hframe.2.2.trans hcompleted⟩
  record db₁ h := by
    unfold Db.insertScannedTipBlock
    split <;> exact h
  confirm db₁ hash h := by
    obtain ⟨houtputs, hpending, hcompleted⟩ := h
    exact ⟨houtputs.updateWhere (by intro _; rfl) (by intro _; rfl) (by intro _; rfl)
      (by intro _; exact Or.inl rfl), hpending, hcompleted⟩

/-- The recorded blocks while a block is processed. -/
theorem tipRecorded_rule (env : ScanEnv) (bp : BlockProcessor) (now : Timestamp)
    (block : BlockScanResult) (accountId : AccountId) (tips : AutoTable ScannedTipBlockRow) :
    BlockRule env bp now block accountId (fun _ L => L.scannedTipBlocks = tips)
      (fun _ L => L.scannedTipBlocks = tips)
      (fun L => TipRecorded accountId (asI64 block.height) block.blockHash tips L.scannedTipBlocks) where
  skip _ _ _ _ h := h
  credit w rest key memo payref id db₁ db₂ _ hins h := by
    obtain ⟨timestamp, -, -, -, rfl⟩ := insertOutput_ok hins
    exact h
  outputsDone _ h := h
  ignore _ _ _ _ h := h
  debit hash rest info timestamp inputId db₁ _ _ h := by
    have hframe : (db₁.insertOrIgnoreInput accountId info.id block.height block.blockHash
        timestamp).scannedTipBlocks = db₁.scannedTipBlocks := by
      unfold Db.insertOrIgnoreInput
      split <;> rfl
    exact hframe.trans h
  record db₁ h := by
    have hrecorded := tipRecorded_insertScannedTipBlock db₁ accountId (asI64 block.height)
      block.blockHash
    rwa [show db₁.scannedTipBlocks = tips from h] at hrecorded
  confirm _ _ h := h

theorem processBlock_tipRecorded (env : ScanEnv) (bp : BlockProcessor) (now : Timestamp)
    (block : BlockScanResult) (accountId : AccountId) (tips : AutoTable ScannedTipBlockRow) :
    Ensures (fun db : Db => db.scannedTipBlocks = tips) (bp.processBlock env now block accountId)
      (fun _ db => TipRecorded accountId (asI64 block.height) block.blockHash tips
        db.scannedTipBlocks) :=
  processBlock_ensures (tipRecorded_rule env bp now block accountId tips)

end Block

/-- What a block does to the outputs and to the pending and completed transactions. -/
theorem processBlock_tables {env : ScanEnv} {bp : BlockProcessor} {now : Timestamp}
    {block : BlockScanResult} {accountId : AccountId} {db db' : Db} {outcome : BlockOutcome}
    (h : runOk (bp.processBlock env now block accountId) db = some (outcome, db')) :
    ScannedFrom db.outputs db'.outputs ∧ db'.pendingTransactions = db.pendingTransactions ∧
      db'.completedTransactions = db.completedTransactions :=
  (processBlock_ensures (scannedTables_rule env bp now block accountId db)).of_runOk
    ⟨ScannedFrom.refl _, rfl, rfl⟩ h

/-! ## Rollbacks -/

/-- The points of `rollback_from_height` between which the ledger changes; the two loops are at the
    rows still to come. -/
inductive RollbackStage where
  | start
  | cancelled
  | inputs (rest : List InputToDelete)
  | inputsDeleted
  | outputs (rest : List OutputToDelete)
  | outputsDeleted
  | tipsDeleted
  | done

section Rollback

variable (accountId : AccountId) (height : Nat) (now : Timestamp)

/-- What each statement of `rollback_from_height` does to the ledger, from stage to stage. -/
structure RollbackRule (S : RollbackStage → Ledger → Prop) : Prop where
  cancel : ∀ db : Db, S .start db.ledger →
    S .cancelled (db.cancelPendingTransactionsByIds
      (cancelledPendingTxIds (db.getActiveOutputsFromHeight accountId height)) .cancelled).ledger
  inputs : ∀ db : Db, S .cancelled db.ledger →
    S (.inputs (db.getInputsToDelete accountId height)) db.ledger
  reverseInput : ∀ (db : Db) row rest, S (.inputs (row :: rest)) db.ledger →
    S (.inputs rest) (db.reverseBalanceChange (db.getBalanceChangeIdByInput row.inputId)
      (inputReversal accountId height now row)).ledger
  deleteInputs : ∀ db : Db, S (.inputs []) db.ledger →
    S .inputsDeleted (db.setInputsDeleted accountId height now).ledger
  outputs : ∀ db : Db, S .inputsDeleted db.ledger →
    S (.outputs (db.getOutputsToDelete accountId height)) db.ledger
  reverseOutput : ∀ (db : Db) row rest, S (.outputs (row :: rest)) db.ledger →
    S (.outputs rest) (db.reverseBalanceChange (db.getBalanceChangeIdByOutput row.id)
      (outputReversal accountId height now row)).ledger
  deleteOutputs : ∀ db : Db, S (.outputs []) db.ledger →
    S .outputsDeleted (db.setOutputsDeleted accountId height now).ledger
  deleteTips : ∀ db : Db, S .outputsDeleted db.ledger →
    S .tipsDeleted (db.deleteScannedTipBlocksFromHeight accountId height).ledger
  reset : ∀ db : Db, S .tipsDeleted db.ledger →
    S .done (db.resetMinedCompletedTransactionsFromHeight accountId height now).ledger

variable {accountId height now} {S : RollbackStage → Ledger → Prop}

theorem softDeleteInputsFromHeight_ensures (r : RollbackRule accountId height now S) :
    Ensures (fun db => S .cancelled db.ledger)
      (softDeleteInputsFromHeight accountId height now)
      (fun _ db => S .inputsDeleted db.ledger) := by
  unfold softDeleteInputsFromHeight
  refine Ensures.bind (Q := fun rows db => S (.inputs rows) db.ledger)
    (Ensures.query (fun db h => r.inputs db h)) (fun rows => ?_)
  refine Ensures.bind (Q := fun _ db => S (.inputs []) db.ledger) ?_
    (fun _ => Ensures.update (fun db h => r.deleteInputs db h))
  exact Ensures.forM (I := fun rest (db : Db) => S (.inputs rest) db.ledger) rows
    (fun row rest => reverseBalanceChange_ensures (fun db h => r.reverseInput db row rest h))

theorem softDeleteOutputsFromHeight_ensures (r : RollbackRule accountId height now S) :
    Ensures (fun db => S .inputsDeleted db.ledger)
      (softDeleteOutputsFromHeight accountId height now)
      (fun _ db => S .outputsDeleted db.ledger) := by
  unfold softDeleteOutputsFromHeight
  refine Ensures.bind (Q := fun rows db => S (.outputs rows) db.ledger)
    (Ensures.query (fun db h => r.outputs db h)) (fun rows => ?_)
  refine Ensures.bind (Q := fun _ db => S (.outputs []) db.ledger) ?_
    (fun _ => Ensures.update (fun db h => r.deleteOutputs db h))
  exact Ensures.forM (I := fun rest (db : Db) => S (.outputs rest) db.ledger) rows
    (fun row rest => reverseBalanceChange_ensures (fun db h => r.reverseOutput db row rest h))

theorem cancelPendingTransactionsByIds_nil (db : Db) (status : PendingTransactionStatus) :
    db.cancelPendingTransactionsByIds [] status = db := by
  have hnone : db.pendingTransactions.updateWhere (fun p => ([] : List RequestId).contains p.id)
      (fun p => { p with status }) = db.pendingTransactions :=
    Table.updateWhere_none (fun _ _ => rfl) (fun _ => rfl)
  unfold Db.cancelPendingTransactionsByIds
  rw [hnone]

theorem cancelPendingTransactionsByIds_ensures {P Q : Db → Prop} (ids : List RequestId)
    (status : PendingTransactionStatus)
    (h : ∀ db, P db → Q (db.cancelPendingTransactionsByIds ids status)) :
    Ensures P (cancelPendingTransactionsByIds ids status) (fun _ db => Q db) := by
  refine Ensures.ite (fun hnil => Ensures.pure (fun db hp => ?_)) (fun _ => Ensures.update h)
  have hq := h db hp
  rwa [List.isEmpty_iff.mp hnil, cancelPendingTransactionsByIds_nil] at hq

/-- A rollback run to its end takes the ledger from `start` to `done`. -/
theorem rollbackFromHeight_ensures (r : RollbackRule accountId height now S)
    (webhookConfig : Option WebhookTriggerConfig) :
    Ensures (fun db => S .start db.ledger)
      (rollbackFromHeight accountId height webhookConfig now)
      (fun _ db => S .done db.ledger) := by
  unfold rollbackFromHeight
  refine Ensures.bind (Q := fun _ db => S .start db.ledger)
    (Ensures.tryQuery (fun db _ h _ => h)) (fun tipBlocks => ?_)
  refine Ensures.bind ((logWalletEvents_keeps _ _ _).ensures (S .start)) (fun events => ?_)
  -- the affected outputs are read before their events are stored, and used after
  let affectedIn : List ReorgOutputInfo → Ledger → Prop := fun affected L =>
    affected = (L.outputs.select (OutputRow.activeFrom accountId height)).map
      (fun o => ⟨o.outputHash, o.minedInBlockHeight, o.lockedByRequestId⟩)
  refine Ensures.bind
    (Q := fun affected (db : Db) => S .start db.ledger ∧ affectedIn affected db.ledger)
    (Ensures.query (fun db h => ⟨h, rfl⟩)) (fun affected => ?_)
  refine Ensures.bind ((logWalletEvents_keeps _ _ _).ensures
    (fun L => S .start L ∧ affectedIn affected L)) (fun events => ?_)
  refine Ensures.bind (Q := fun _ db => S .cancelled db.ledger)
    (cancelPendingTransactionsByIds_ensures _ _ (fun db h => ?_)) (fun _ => ?_)
  · have hcancel := r.cancel db h.1
    rwa [show db.getActiveOutputsFromHeight accountId height = affected from h.2.symm] at hcancel
  refine Ensures.bind ((logWalletEvents_keeps _ _ _).ensures (S .cancelled)) (fun events => ?_)
  refine Ensures.bind (softDeleteInputsFromHeight_ensures r) (fun _ => ?_)
  refine Ensures.bind (softDeleteOutputsFromHeight_ensures r) (fun _ => ?_)
  refine Ensures.bind (Q := fun _ db => S .tipsDeleted db.ledger)
    (Ensures.update (fun db h => r.deleteTips db h)) (fun _ => ?_)
  refine Ensures.bind ((saveDisplayedTransactionPayrefsBeforeReorg_keeps _ _ _).ensures
    (S .tipsDeleted)) (fun _ => ?_)
  refine Ensures.bind ((markDisplayedTransactionsReorganizedAndReturn_keeps _ _).ensures
    (S .tipsDeleted)) (fun reorganized => ?_)
  refine Ensures.bind ((saveCompletedTransactionPayrefsBeforeReorg_keeps _ _ _).ensures
    (S .tipsDeleted)) (fun _ => ?_)
  refine Ensures.bind (Q := fun _ db => S .done db.ledger)
    (Ensures.update (fun db h => r.reset db h)) (fun _ => ?_)
  exact Ensures.bind ((triggerWebhooks_keeps _ _ _ _).ensures (S .done))
    (fun _ => Ensures.pure (fun db h => h))

/-- The tables at each stage of a rollback of `db`, but for the balance changes. -/
def rollbackTables (accountId : AccountId) (height : Nat) (now : Timestamp) (db : Db)
    (stage : RollbackStage) (L : Ledger) : Prop :=
  let cancelled := (db.cancelPendingTransactionsByIds
    (cancelledPendingTxIds (db.getActiveOutputsFromHeight accountId height)) .cancelled)
  (L.outputs = match stage with
    | .outputsDeleted | .tipsDeleted | .done => (db.setOutputsDeleted accountId height now).outputs
    | _ => db.outputs) ∧
  (L.pendingTransactions = match stage with
    | .start => db.pendingTransactions
    | _ => cancelled.pendingTransactions) ∧
  (L.completedTransactions = match stage with
    | .done => (db.resetMinedCompletedTransactionsFromHeight accountId height
        now).completedTransactions
    | _ => db.completedTransactions) ∧
  (L.inputs = match stage with
    | .start | .cancelled | .inputs _ => db.inputs
    | _ => (db.setInputsDeleted accountId height now).inputs) ∧
  L.scannedTipBlocks = match stage with
    | .tipsDeleted | .done => (db.deleteScannedTipBlocksFromHeight accountId height).scannedTipBlocks
    | _ => db.scannedTipBlocks

theorem rollbackTables_rule (accountId : AccountId) (height : Nat) (now : Timestamp) (db : Db) :
    RollbackRule accountId height now (rollbackTables accountId height now db) where
  cancel db' h := by
    obtain ⟨houtputs, hpending, hrest⟩ := h
    refine ⟨houtputs, ?_, hrest⟩
    have houtputs' : db'.outputs = db.outputs := houtputs
    have hpending' : db'.pendingTransactions = db.pendingTransactions := hpending
    simp only [Db.ledger, Db.cancelPendingTransactionsByIds, Db.getActiveOutputsFromHeight,
      houtputs', hpending']
  inputs _ h := h
  reverseInput db' row rest h := by
    rw [reverseBalanceChange_frame]
    exact h
  deleteInputs db' h := by
    obtain ⟨houtputs, hpending, hcompleted, hinputs, htips⟩ := h
    refine ⟨houtputs, hpending, hcompleted, ?_, htips⟩
    have hinputs' : db'.inputs = db.inputs := hinputs
    simp only [Db.ledger, Db.setInputsDeleted, hinputs']
  outputs _ h := h
  reverseOutput db' row rest h := by
    rw [reverseBalanceChange_frame]
    exact h
  deleteOutputs db' h := by
    obtain ⟨houtputs, hrest⟩ := h
    refine ⟨?_, hrest⟩
    have houtputs' : db'.outputs = db.outputs := houtputs
    simp only [Db.ledger, Db.setOutputsDeleted, houtputs']
  deleteTips db' h := by
    obtain ⟨houtputs, hpending, hcompleted, hinputs, htips⟩ := h
    refine ⟨houtputs, hpending, hcompleted, hinputs, ?_⟩
    have htips' : db'.scannedTipBlocks = db.scannedTipBlocks := htips
    simp only [Db.ledger, Db.deleteScannedTipBlocksFromHeight, htips']
  reset db' h := by
    obtain ⟨houtputs, hpending, hcompleted, hrest⟩ := h
    refine ⟨houtputs, hpending, ?_, hrest⟩
    have hcompleted' : db'.completedTransactions = db.completedTransactions := hcompleted
    simp only [Db.ledger, Db.resetMinedCompletedTransactionsFromHeight, hcompleted']

/-- What a rollback leaves of the tables of `db`, but for the balance changes. -/
structure RolledBack (accountId : AccountId) (height : Nat) (now : Timestamp) (db db' : Db) :
    Prop where
  outputs : db'.outputs = (db.setOutputsDeleted accountId height now).outputs
  inputs : db'.inputs = (db.setInputsDeleted accountId height now).inputs
  tips : db'.scannedTipBlocks =
    (db.deleteScannedTipBlocksFromHeight accountId height).scannedTipBlocks
  pending : db'.pendingTransactions = (db.cancelPendingTransactionsByIds (cancelledPendingTxIds
    (db.getActiveOutputsFromHeight accountId height)) .cancelled).pendingTransactions
  completed : db'.completedTransactions = (db.resetMinedCompletedTransactionsFromHeight accountId
    height now).completedTransactions

theorem rollbackFromHeight_rolledBack {accountId : AccountId} {height : Nat}
    {webhookConfig : Option WebhookTriggerConfig} {now : Timestamp} {c c' : Conn Db}
    {info : ReorgInformation}
    (h : rollbackFromHeight accountId height webhookConfig now c = .ok info c') :
    RolledBack accountId height now c.store c'.store := by
  obtain ⟨houtputs, hpending, hcompleted, hinputs, htips⟩ :=
    rollbackFromHeight_ensures (rollbackTables_rule accountId height now c.store) webhookConfig
      c info c' ⟨rfl, rfl, rfl, rfl, rfl⟩ h
  exact ⟨houtputs, hinputs, htips, hpending, hcompleted⟩

end Rollback

/-! ## What a rollback does to the displayed transactions and events -/

/-- The event is one that a rollback stores. -/
def WalletEventType.ofRollback : WalletEventType → Bool
  | .blockRolledBack .. | .outputRolledBack .. | .pendingTransactionCancelled .. => true
  | _ => false

/-- Of the steps of a rollback one writes displayed transactions, and none stores other events: a
    view of the two tables that misses its events changes in that step only. -/
theorem rollbackFromHeight_marks {τ : Type}
    {w : Table DisplayedTransactionRow → AutoTable EventRow → τ} {accountId : AccountId}
    (hevent : ∀ (db : Db) (event : WalletEvent), event.eventType.ofRollback = true →
      w db.displayedTransactions (db.insertWalletEvent accountId event).2.events =
        w db.displayedTransactions db.events)
    {height : Nat} {webhookConfig : Option WebhookTriggerConfig} {now : Timestamp} {c c' : Conn Db}
    {info : ReorgInformation}
    (h : rollbackFromHeight accountId height webhookConfig now c = .ok info c') :
    ∃ c₁ c₂ txs, w c₁.store.displayedTransactions c₁.store.events =
        w c.store.displayedTransactions c.store.events ∧
      markDisplayedTransactionsReorganizedAndReturn accountId height c₁ = .ok txs c₂ ∧
      w c'.store.displayedTransactions c'.store.events =
        w c₂.store.displayedTransactions c₂.store.events := by
  let v : Db → τ := fun db => w db.displayedTransactions db.events
  let Before : τ → Prop := (· = v c.store)
  let After : τ → Prop := fun t => ∃ c₁ c₂ txs, Before (v c₁.store) ∧
    markDisplayedTransactionsReorganizedAndReturn accountId height c₁ = .ok txs c₂ ∧ t = v c₂.store
  have hlog : ∀ {α : Type} (event : α → WalletEvent) (rows : List α) generatedEvents,
      (∀ a, (event a).eventType.ofRollback = true) →
      Keeps v ((rows.map event).foldlM (logWalletEvent accountId) generatedEvents) := by
    intro α event rows generatedEvents hrollback
    refine logWalletEvents_keepsView generatedEvents (fun e he db => ?_)
    obtain ⟨a, -, rfl⟩ := List.mem_map.mp he
    exact hevent db _ (hrollback a)
  have hcancel : ∀ ids, Keeps v (cancelPendingTransactionsByIds ids .cancelled) := fun _ =>
    Keeps.ite Keeps.pure (Keeps.update (fun _ => rfl))
  have hreverse : ∀ original reversal, Keeps v (reverseBalanceChange original reversal) :=
    reverseBalanceChange_keepsView (fun _ _ => rfl)
  have hinputs : Keeps v (softDeleteInputsFromHeight accountId height now) :=
    Keeps.bind Keeps.query (fun _ => Keeps.bind (Keeps.forM (fun _ => hreverse _ _))
      (fun _ => Keeps.update (fun _ => rfl)))
  have houtputs : Keeps v (softDeleteOutputsFromHeight accountId height now) :=
    Keeps.bind Keeps.query (fun _ => Keeps.bind (Keeps.forM (fun _ => hreverse _ _))
      (fun _ => Keeps.update (fun _ => rfl)))
  have hsave : Keeps v (saveDisplayedTransactionPayrefsBeforeReorg accountId height now) :=
    Keeps.bind Keeps.query (fun _ => Keeps.forM (fun _ => Keeps.forM (fun _ =>
      Keeps.update (fun _ => rfl))))
  have hsaveCompleted : Keeps v (saveCompletedTransactionPayrefsBeforeReorg accountId height now) :=
    Keeps.bind Keeps.query (fun _ => Keeps.forM (fun _ => Keeps.forM (fun _ =>
      Keeps.update (fun _ => rfl))))
  have hrun : Ensures (fun db => Before (v db))
      (rollbackFromHeight accountId height webhookConfig now) (fun _ db => After (v db)) := by
    unfold rollbackFromHeight
    refine Ensures.bind (Keeps.tryQuery.ensures Before) (fun _ => ?_)
    refine Ensures.bind ((hlog _ _ _ (fun _ => rfl)).ensures Before) (fun _ => ?_)
    refine Ensures.bind (Keeps.query.ensures Before) (fun _ => ?_)
    refine Ensures.bind ((hlog _ _ _ (fun _ => rfl)).ensures Before) (fun _ => ?_)
    refine Ensures.bind ((hcancel _).ensures Before) (fun _ => ?_)
    refine Ensures.bind ((hlog _ _ _ (fun _ => rfl)).ensures Before) (fun _ => ?_)
    refine Ensures.bind (hinputs.ensures Before) (fun _ => ?_)
    refine Ensures.bind (houtputs.ensures Before) (fun _ => ?_)
    refine Ensures.bind (Q := fun _ db => Before (v db)) (Ensures.update (fun _ h => h))
      (fun _ => ?_)
    refine Ensures.bind (hsave.ensures Before) (fun _ => ?_)
    refine Ensures.bind (Q := fun _ db => After (v db))
      (fun c₁ txs c₂ hbefore hmark => ⟨c₁, c₂, txs, hbefore, hmark, rfl⟩) (fun _ => ?_)
    refine Ensures.bind (hsaveCompleted.ensures After) (fun _ => ?_)
    refine Ensures.bind (Q := fun _ db => After (v db)) (Ensures.update (fun _ h => h))
      (fun _ => ?_)
    refine Ensures.bind ((triggerWebhooks_keepsView (v := v) (fun _ _ => rfl) _ _ _ _).ensures After)
      (fun _ => ?_)
    exact Ensures.pure (fun _ h => h)
  exact hrun c info c' rfl h

end MinotariWallet
