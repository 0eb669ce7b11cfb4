import MinotariWallet.Lib.Retains
import MinotariWallet.Transactions.Coherent

set_option autoImplicit false

/-! # What is never forgotten

No statement of the wallet deletes an output, an input, a balance change, a pending or a completed
transaction. A row keeps what was stored with it, and the few columns that do change go one way:
what is deleted, spent, confirmed or reversed stays so, and a pending transaction that has ended
does not come back. -/

namespace MinotariWallet

open Sql Exec

/-! ## Rows -/

/-- What was stored with the output. -/
def OutputRow.facts (o : OutputRow) : OutputRow :=
  { o with
    confirmedHeight := none
    confirmedHash := none
    status := .unspent
    lockedAt := none
    lockedByRequestId := none
    deletedAt := none
    deletedInBlockHeight := none
    paymentReference := none }

def InputRow.facts (i : InputRow) : InputRow :=
  { i with deletedAt := none, deletedInBlockHeight := none }

def BalanceChangeRow.facts (b : BalanceChangeRow) : BalanceChangeRow := { b with isReversed := false }

def PendingTransactionRow.facts (p : PendingTransactionRow) : PendingTransactionRow :=
  { p with status := .pending }

def CompletedTransactionRow.facts (c : CompletedTransactionRow) : CompletedTransactionRow :=
  { c with
    status := .completed
    lastRejectedReason := none
    sentPayref := none
    minedHeight := none
    minedBlockHash := none
    confirmationHeight := none
    broadcastAttempts := 0
    updatedAt := 0 }

/-- What may become of an output. -/
structure OutputRow.Ages (o o' : OutputRow) : Prop where
  facts : o'.facts = o.facts
  deleted : o.active = false → o'.active = false ∧ o'.deletedAt = o.deletedAt ∧
    o'.deletedInBlockHeight = o.deletedInBlockHeight
  spent : o.status = .spent → o'.status = .spent
  confirmed : o.confirmedHeight.isSome = true → o'.confirmedHeight.isSome = true
  /-- The payment reference goes with the output. -/
  payref : o'.active = true → o'.paymentReference = o.paymentReference

/-- What may become of an input. -/
structure InputRow.Ages (i i' : InputRow) : Prop where
  facts : i'.facts = i.facts
  deleted : i.active = false → i' = i

/-- What may become of a balance change. -/
structure BalanceChangeRow.Ages (b b' : BalanceChangeRow) : Prop where
  facts : b'.facts = b.facts
  reversed : b.isReversed = true → b'.isReversed = true

/-- What may become of a pending transaction. -/
structure PendingTransactionRow.Ages (p p' : PendingTransactionRow) : Prop where
  facts : p'.facts = p.facts
  ended : p.status ≠ .pending → p'.status ≠ .pending

/-- What may become of a completed transaction. -/
structure CompletedTransactionRow.Ages (c c' : CompletedTransactionRow) : Prop where
  facts : c'.facts = c.facts

instance : IsPreorder OutputRow OutputRow.Ages where
  refl _ := ⟨rfl, fun h => ⟨h, rfl, rfl⟩, id, id, fun _ => rfl⟩
  trans o o' o'' h h' := by
    refine ⟨h'.facts.trans h.facts, fun hdel => ?_, fun hs => h'.spent (h.spent hs),
      fun hc => h'.confirmed (h.confirmed hc), fun hactive => ?_⟩
    · obtain ⟨hdel', hat, hin⟩ := h.deleted hdel
      obtain ⟨hdel'', hat', hin'⟩ := h'.deleted hdel'
      exact ⟨hdel'', hat'.trans hat, hin'.trans hin⟩
    · have hactive' : o'.active = true := by
        cases hact : o'.active with
        | true => rfl
        | false => simp [(h'.deleted hact).1] at hactive
      exact (h'.payref hactive).trans (h.payref hactive')

instance : IsPreorder InputRow InputRow.Ages where
  refl _ := ⟨rfl, fun _ => rfl⟩
  trans i i' i'' h h' := by
    refine ⟨h'.facts.trans h.facts, fun hdel => ?_⟩
    obtain rfl := h.deleted hdel
    exact h'.deleted hdel

instance : IsPreorder BalanceChangeRow BalanceChangeRow.Ages where
  refl _ := ⟨rfl, id⟩
  trans _ _ _ h h' := ⟨h'.facts.trans h.facts, fun hr => h'.reversed (h.reversed hr)⟩

instance : IsPreorder PendingTransactionRow PendingTransactionRow.Ages where
  refl _ := ⟨rfl, id⟩
  trans _ _ _ h h' := ⟨h'.facts.trans h.facts, fun he => h'.ended (h.ended he)⟩

instance : IsPreorder CompletedTransactionRow CompletedTransactionRow.Ages where
  refl _ := ⟨rfl⟩
  trans _ _ _ h h' := ⟨h'.facts.trans h.facts⟩

/-! What the statements write to a row. -/

theorem OutputRow.ages_spent (o : OutputRow) : o.Ages { o with status := .spent } :=
  ⟨rfl, fun hdel => ⟨hdel, rfl, rfl⟩, fun _ => rfl, fun hconf => hconf, fun _ => rfl⟩

theorem OutputRow.ages_confirmed (o : OutputRow) (height : Int) (hash : FixedHash) :
    o.Ages { o with confirmedHeight := some height, confirmedHash := some hash } :=
  ⟨rfl, fun hdel => ⟨hdel, rfl, rfl⟩, fun hspent => hspent, fun _ => rfl, fun _ => rfl⟩

theorem OutputRow.ages_deleted {accountId : AccountId} {height : Nat} {o : OutputRow}
    (h : o.activeFrom accountId height = true) (now : Timestamp) : o.Ages { o with
      deletedAt := some now
      deletedInBlockHeight := some (asI64 height)
      paymentReference := none } := by
  refine ⟨rfl, fun hdel => ?_, fun hspent => hspent, fun hconf => hconf, fun hactive => ?_⟩
  · simp [((OutputRow.activeFrom_eq_true).mp h).2] at hdel
  · cases hactive

theorem OutputRow.ages_locked {o : OutputRow} {outputId : Id}
    (h : (o.id == outputId && o.status == .unspent) = true) (req : RequestId) (now : Timestamp) :
    o.Ages { o with status := .locked, lockedByRequestId := some req, lockedAt := some now } := by
  simp only [Bool.and_eq_true, beq_iff_eq] at h
  refine ⟨rfl, fun hdel => ⟨hdel, rfl, rfl⟩, fun hspent => ?_, fun hconf => hconf, fun _ => rfl⟩
  simp [h.2] at hspent

theorem OutputRow.ages_unlocked {o : OutputRow} {req : RequestId}
    (h : (o.lockedByRequestId == some req && o.status == .locked) = true) :
    o.Ages { o with status := .unspent, lockedAt := none, lockedByRequestId := none } := by
  simp only [Bool.and_eq_true, beq_iff_eq] at h
  refine ⟨rfl, fun hdel => ⟨hdel, rfl, rfl⟩, fun hspent => ?_, fun hconf => hconf, fun _ => rfl⟩
  simp [h.2] at hspent

theorem InputRow.ages_deleted {accountId : AccountId} {height : Nat} {i : InputRow}
    (h : i.activeFrom accountId height = true) (now : Timestamp) : i.Ages { i with
      deletedAt := some now
      deletedInBlockHeight := some (asI64 height) } := by
  refine ⟨rfl, fun hdel => ?_⟩
  simp [((InputRow.activeFrom_eq_true).mp h).2] at hdel

theorem BalanceChangeRow.ages_reversed (b : BalanceChangeRow) :
    b.Ages { b with isReversed := true } := ⟨rfl, fun _ => rfl⟩

theorem PendingTransactionRow.ages_ended (p : PendingTransactionRow)
    {status : PendingTransactionStatus} (h : status ≠ .pending) : p.Ages { p with status } :=
  ⟨rfl, fun _ => h⟩

theorem CompletedTransactionRow.ages_reset (c : CompletedTransactionRow) (now : Timestamp) :
    c.Ages (c.reset now) := ⟨rfl⟩

/-! ## Columns that do not age -/

theorem OutputRow.Ages.columns {o o' : OutputRow} (h : o.Ages o') : o'.id = o.id ∧
    o'.accountId = o.accountId ∧ o'.outputHash = o.outputHash := by
  have hfacts : o'.facts.id = o.facts.id ∧ o'.facts.accountId = o.facts.accountId ∧
    o'.facts.outputHash = o.facts.outputHash := by simp only [h.facts, and_self]
  exact hfacts

theorem OutputRow.Ages.active {o o' : OutputRow} (h : o.Ages o') (hactive : o'.active = true) :
    o.active = true := by
  cases ho : o.active with
  | true => rfl
  | false => simp [(h.deleted ho).1] at hactive

theorem InputRow.Ages.columns {i i' : InputRow} (h : i.Ages i') :
    i'.outputId = i.outputId ∧ i'.accountId = i.accountId := by
  have hfacts : i'.facts.outputId = i.facts.outputId ∧ i'.facts.accountId = i.facts.accountId := by
    simp only [h.facts, and_self]
  exact hfacts

theorem BalanceChangeRow.Ages.columns {b b' : BalanceChangeRow} (h : b.Ages b') :
    b'.causedByOutputId = b.causedByOutputId ∧ b'.causedByInputId = b.causedByInputId ∧
      b'.reversalOfBalanceChangeId = b.reversalOfBalanceChangeId ∧ b'.accountId = b.accountId := by
  have hfacts : b'.facts.causedByOutputId = b.facts.causedByOutputId ∧
      b'.facts.causedByInputId = b.facts.causedByInputId ∧
      b'.facts.reversalOfBalanceChangeId = b.facts.reversalOfBalanceChangeId ∧
      b'.facts.accountId = b.facts.accountId := by simp only [h.facts, and_self]
  exact hfacts

theorem PendingTransactionRow.Ages.accountId {p p' : PendingTransactionRow} (h : p.Ages p') :
    p'.accountId = p.accountId := by
  have hfacts : p'.facts.accountId = p.facts.accountId := by simp only [h.facts]
  exact hfacts

theorem CompletedTransactionRow.Ages.columns {c c' : CompletedTransactionRow} (h : c.Ages c') :
    c'.pendingTxId = c.pendingTxId ∧ c'.accountId = c.accountId := by
  have hfacts : c'.facts.pendingTxId = c.facts.pendingTxId ∧
    c'.facts.accountId = c.facts.accountId := by simp only [h.facts, and_self]
  exact hfacts

/-! ## Ledgers -/

/-- Every row of the ledger is still there, and has changed as it may. -/
structure Ledger.Ages (L L' : Ledger) : Prop where
  outputs : L.outputs.Retains OutputRow.Ages L'.outputs.toTable
  inputs : L.inputs.Retains InputRow.Ages L'.inputs.toTable
  balanceChanges : L.balanceChanges.Retains BalanceChangeRow.Ages L'.balanceChanges.toTable
  pending : L.pendingTransactions.Retains PendingTransactionRow.Ages L'.pendingTransactions
  completed : L.completedTransactions.Retains CompletedTransactionRow.Ages L'.completedTransactions

namespace Ledger.Ages

variable {L L' L'' : Ledger}

theorem refl (L : Ledger) : L.Ages L :=
  ⟨.refl _, .refl _, .refl _, .refl _, .refl _⟩

theorem trans (h : L.Ages L') (h' : L'.Ages L'') : L.Ages L'' :=
  ⟨h.outputs.trans h'.outputs, h.inputs.trans h'.inputs,
    h.balanceChanges.trans h'.balanceChanges, h.pending.trans h'.pending,
    h.completed.trans h'.completed⟩

theorem setOutputs {outputs : AutoTable OutputRow}
    (h : L.outputs.Retains OutputRow.Ages outputs.toTable) : L.Ages { L with outputs } :=
  ⟨h, .refl _, .refl _, .refl _, .refl _⟩

theorem setInputs {inputs : AutoTable InputRow}
    (h : L.inputs.Retains InputRow.Ages inputs.toTable) : L.Ages { L with inputs } :=
  ⟨.refl _, h, .refl _, .refl _, .refl _⟩

theorem setBalanceChanges {balanceChanges : AutoTable BalanceChangeRow}
    (h : L.balanceChanges.Retains BalanceChangeRow.Ages balanceChanges.toTable) :
    L.Ages { L with balanceChanges } :=
  ⟨.refl _, .refl _, h, .refl _, .refl _⟩

theorem setTips (tips : AutoTable ScannedTipBlockRow) : L.Ages { L with scannedTipBlocks := tips } :=
  ⟨.refl _, .refl _, .refl _, .refl _, .refl _⟩

theorem setPending {pendingTransactions : Table PendingTransactionRow}
    (h : L.pendingTransactions.Retains PendingTransactionRow.Ages pendingTransactions) :
    L.Ages { L with pendingTransactions } :=
  ⟨.refl _, .refl _, .refl _, h, .refl _⟩

theorem setCompleted {completedTransactions : Table CompletedTransactionRow}
    (h : L.completedTransactions.Retains CompletedTransactionRow.Ages completedTransactions) :
    L.Ages { L with completedTransactions } :=
  ⟨.refl _, .refl _, .refl _, .refl _, h⟩

end Ledger.Ages

/-! ## Blocks and rollbacks -/

theorem ages_insertBalanceChange (db : Db) (change : BalanceChange) :
    db.ledger.Ages (db.insertBalanceChange change).2.ledger :=
  .setBalanceChanges (Table.retains_insert _ (by intro _; rfl))

theorem ages_insertOrIgnoreInput (db : Db) (accountId : AccountId) (outputId : Id) (height : Nat)
    (blockHash : FixedHash) (timestamp : Timestamp) :
    db.ledger.Ages (db.insertOrIgnoreInput accountId outputId height blockHash timestamp).ledger := by
  unfold Db.insertOrIgnoreInput
  split
  · exact .refl _
  · exact .setInputs (Table.retains_insert _ (by intro _; rfl))

theorem ages_reverseBalanceChange (db : Db) (original : Option Id)
    (reversal : Option Id → BalanceChange) :
    db.ledger.Ages (db.reverseBalanceChange original reversal).ledger := by
  unfold Db.reverseBalanceChange
  cases original with
  | none => exact ages_insertBalanceChange db _
  | some id =>
      have hmark : db.ledger.Ages (db.markBalanceChangeAsReversed id).ledger :=
        .setBalanceChanges (Table.retains_updateWhere _ (fun b _ => b.ages_reversed)
          (by intro _; rfl))
      exact hmark.trans (ages_insertBalanceChange _ _)

/-- Whatever a block does to the ledger, it only ages it. -/
theorem ages_blockRule (env : ScanEnv) (bp : BlockProcessor) (now : Timestamp)
    (block : BlockScanResult) (accountId : AccountId) (L : Ledger) :
    BlockRule env bp now block accountId (fun _ => L.Ages) (fun _ => L.Ages) L.Ages where
  skip _ _ _ _ h := h
  credit w rest key memo payref id db db' _ hins h := by
    obtain ⟨timestamp, -, -, -, rfl⟩ := insertOutput_ok hins
    have hrow : db.ledger.Ages (Db.ledger { db with
        outputs := db.outputs.insert (newOutputRow env.toExternals accountId key w.1 w.2.1
          block.height block.blockHash timestamp memo.parsed memo.hex payref w.2.1.isBurned) }) :=
      .setOutputs (Table.retains_insert _ (by intro _; rfl))
    exact (h.trans hrow).trans (ages_insertBalanceChange _ _)
  outputsDone _ h := h
  ignore _ _ _ _ h := h
  debit hash rest info timestamp inputId db _ _ h := by
    have hinput := ages_insertOrIgnoreInput db accountId info.id block.height block.blockHash timestamp
    refine ((h.trans hinput).trans (ages_insertBalanceChange _ (makeBalanceChangeForInput accountId
      inputId info.output.value block now))).trans (.setOutputs ?_)
    exact Table.retains_updateWhere _ (fun o _ => o.ages_spent) (by intro _; rfl)
  record db h := by
    unfold Db.insertScannedTipBlock
    split
    · exact h
    · exact h.trans (.setTips _)
  confirm db hash h :=
    h.trans (.setOutputs (Table.retains_updateWhere _ (fun o _ => o.ages_confirmed _ _)
      (by intro _; rfl)))

theorem ages_cancel (db : Db) (ids : List RequestId) :
    db.ledger.Ages (db.cancelPendingTransactionsByIds ids .cancelled).ledger :=
  .setPending (.updateWhere (fun p _ => p.ages_ended (by decide)) (by intro _; rfl))

/-- Whatever a rollback does to the ledger, it only ages it. -/
theorem ages_rollbackRule (accountId : AccountId) (height : Nat) (now : Timestamp) (L : Ledger) :
    RollbackRule accountId height now (fun _ => L.Ages) where
  cancel db h := h.trans (ages_cancel db _)
  inputs _ h := h
  reverseInput db _ _ h := h.trans (ages_reverseBalanceChange db _ _)
  deleteInputs db h :=
    h.trans (.setInputs (Table.retains_updateWhere _ (fun _ hp => InputRow.ages_deleted hp now)
      (by intro _; rfl)))
  outputs _ h := h
  reverseOutput db _ _ h := h.trans (ages_reverseBalanceChange db _ _)
  deleteOutputs db h :=
    h.trans (.setOutputs (Table.retains_updateWhere _ (fun _ hp => OutputRow.ages_deleted hp now)
      (by intro _; rfl)))
  deleteTips db h := h.trans (.setTips _)
  reset db h :=
    h.trans (.setCompleted (.updateWhere (fun c _ => c.ages_reset now) (by intro _; rfl)))

/-! ## Statements of calls -/

variable {env : TransactionEnv} {db : Db} {x : Statement}

theorem OutputChange.ages {locks : Option (RequestId × List Id)} {unlocks : Option RequestId}
    {o o' : OutputRow} (h : OutputChange locks unlocks o o') : o'.id = o.id ∧ o.Ages o' := by
  cases h with
  | stays => exact ⟨rfl, Std.Refl.refl o⟩
  | locks hlocks hid hstatus lockedAt =>
      refine ⟨rfl, rfl, fun hdel => ⟨hdel, rfl, rfl⟩, fun hspent => ?_, id, fun _ => rfl⟩
      simp [hstatus] at hspent
  | unlocks hunlocks hstatus hreq =>
      refine ⟨rfl, rfl, fun hdel => ⟨hdel, rfl, rfl⟩, fun hspent => ?_, id, fun _ => rfl⟩
      simp [hstatus] at hspent

theorem lockOutputs_scanTables (db : Db) (utxos : List DbWalletOutput) (req : RequestId)
    (now : Timestamp) : (db.lockOutputs utxos req now).inputs = db.inputs ∧
      (db.lockOutputs utxos req now).balanceChanges = db.balanceChanges ∧
      (db.lockOutputs utxos req now).scannedTipBlocks = db.scannedTipBlocks := by
  induction utxos generalizing db with
  | nil => exact ⟨rfl, rfl, rfl⟩
  | cons u rest ih => exact ih _

/-- The tables that the calls of `transactions` do not write. -/
theorem apply_scanTables (db : Db) (x : Statement) :
    (x.apply db).inputs = db.inputs ∧ (x.apply db).balanceChanges = db.balanceChanges ∧
      (x.apply db).scannedTipBlocks = db.scannedTipBlocks := by
  cases x with
  | record y hy =>
      have hledger := record_ledger hy db
      exact ⟨congrArg Ledger.inputs hledger, congrArg Ledger.balanceChanges hledger,
        congrArg Ledger.scannedTipBlocks hledger⟩
  | createPendingTransaction new =>
      cases hc : db.createPending new with
      | error e => simp [Statement.apply, hc, Except.toOption]
      | ok db' =>
          rw [apply_createPending hc]
          obtain ⟨_, -, -, -, -, -, _, -, rfl⟩ := createPending_ok hc
          exact ⟨rfl, rfl, rfl⟩
  | createPendingTransactionAndLock new =>
      cases hc : db.createPending new with
      | error e => simp [Statement.apply, Db.createPendingAndLock, hc, Except.toOption, Except.map]
      | ok db' =>
          rw [apply_createPendingAndLock hc]
          obtain ⟨_, -, -, -, -, -, pendingTransactions, -, rfl⟩ := createPending_ok hc
          exact lockOutputs_scanTables _ _ _ _
  | createCompletedTransaction new =>
      cases hc : db.createCompleted new with
      | error e => simp [Statement.apply, hc, Except.toOption]
      | ok db' =>
          rw [apply_createCompleted hc]
          obtain ⟨_, -, -, -, -, -, _, -, rfl⟩ := createCompleted_ok hc
          exact ⟨rfl, rfl, rfl⟩
  | _ => exact ⟨rfl, rfl, rfl⟩

theorem StatusWrite.facts_write {w : StatusWrite} (h : x.statusWrite = some w)
    (c : CompletedTransactionRow) : (w.write c).facts = c.facts := by
  cases x <;> cases h <;> rfl

/-- Whatever a statement does to the ledger, it only ages it. -/
theorem ages_apply (db : Db) (x : Statement)
    (hsets : ∀ id status, x.sets = some (id, status) → status ≠ .pending) :
    db.ledger.Ages (x.apply db).ledger where
  outputs o ho := by
    obtain ⟨o', ho', hchange⟩ := (outputsFrom_apply db x).forward o ho
    exact ⟨o', ho', hchange.ages⟩
  inputs := by
    show db.inputs.Retains InputRow.Ages (x.apply db).inputs.toTable
    rw [(apply_scanTables db x).1]
    exact .refl _
  balanceChanges := by
    show db.balanceChanges.Retains BalanceChangeRow.Ages (x.apply db).balanceChanges.toTable
    rw [(apply_scanTables db x).2.1]
    exact .refl _
  pending := by
    show db.pendingTransactions.Retains PendingTransactionRow.Ages (x.apply db).pendingTransactions
    rcases apply_pendingTransactions db x with heq | ⟨new, db', hc, heq⟩ | ⟨id, status, hx, heq⟩
    · rw [heq]
      exact .refl _
    · rw [heq]
      obtain ⟨_, -, -, -, -, -, _, hins, rfl⟩ := createPending_ok hc
      exact .insert? hins
    · rw [heq]
      exact .updateWhere (fun p _ => p.ages_ended (hsets id status hx)) (by intro _; rfl)
  completed := by
    show db.completedTransactions.Retains CompletedTransactionRow.Ages
      (x.apply db).completedTransactions
    cases hw : x.statusWrite with
    | none => exact fun c hc => ⟨c, (apply_noStatusWrite db hw).1 c hc, rfl, ⟨rfl⟩⟩
    | some w =>
        rw [apply_statusWrite db hw]
        exact .updateWhere (fun c _ => ⟨w.facts_write hw c⟩) w.keepsId

/-! ## Runs -/

theorem ages_processBlock {env : ScanEnv} {bp : BlockProcessor} {now : Timestamp}
    {block : BlockScanResult} {accountId : AccountId} {db db' : Db} {outcome : BlockOutcome}
    (h : runOk (bp.processBlock env now block accountId) db = some (outcome, db')) :
    db.ledger.Ages db'.ledger :=
  (processBlock_ensures (ages_blockRule env bp now block accountId db.ledger)).of_runOk
    (.refl db.ledger) h

theorem ages_rollbackFromHeight {accountId : AccountId} {height : Nat}
    {webhookConfig : Option WebhookTriggerConfig} {now : Timestamp} {db db' : Db}
    {info : ReorgInformation}
    (h : runOk (rollbackFromHeight accountId height webhookConfig now) db = some (info, db')) :
    db.ledger.Ages db'.ledger :=
  (rollbackFromHeight_ensures (ages_rollbackRule accountId height now db.ledger)
    webhookConfig).of_runOk (.refl db.ledger) h

theorem WalletSystem.ages_step {s s' : WalletSystem} {a : SystemAction}
    (h : s.step env a = some s') : s.db.ledger.Ages s'.db.ledger := by
  rcases step_db h with hdb | ⟨i, ch, rfl⟩ | ⟨bp, block, accountId, now, rfl⟩ |
    ⟨accountId, height, webhookConfig, now, rfl⟩
  · rw [hdb]
    exact .refl _
  · obtain ⟨c, x, c', -, -, hcall, rfl⟩ := step_statement h
    refine ages_apply s.db x (fun id status hx hpending => ?_)
    rcases hcall.sets hx with ⟨rfl, -⟩ | ⟨rfl, -⟩ <;> cases hpending
  · obtain ⟨⟨outcome, db⟩, hrun, rfl⟩ := Option.map_eq_some_iff.mp h
    exact ages_processBlock hrun
  · obtain ⟨⟨info, db⟩, hrun, rfl⟩ := Option.map_eq_some_iff.mp h
    exact ages_rollbackFromHeight hrun

theorem BurnState.next_sets {ch : Choice} {result : BurnTxResult} {st st' : BurnState}
    (h : st.next ch db result = some (x, st')) {id : RequestId} {status : PendingTransactionStatus}
    (hx : x.sets = some (id, status)) : status = .completed := by
  cases st <;> simp only [BurnState.next] at h <;> (try split at h) <;> cases h <;> cases hx
  rfl

theorem BurnSystem.ages_step {s s' : BurnSystem} {a : BurnAction} (h : s.step env a = some s') :
    s.wallet.db.ledger.Ages s'.wallet.db.ledger := by
  rcases step_db h with ⟨b, -, hb⟩ | ⟨i, ch, result, st, x, st', -, -, hnext, hdb⟩ | ⟨-, -, hdb⟩
  · exact WalletSystem.ages_step hb
  · rw [hdb]
    refine ages_apply _ x (fun id status hx hpending => ?_)
    cases (BurnState.next_sets hnext hx).symm.trans hpending
  · rw [hdb]
    exact .refl _

/-- In every run of calls, burns, blocks and rollbacks, in any order and interleaved in any way, no
    row of the ledger is lost or changes what was stored with it; and what was deleted, spent,
    confirmed, reversed or ended at some point is so from there on. -/
theorem ledger_never_forgets (env : TransactionEnv) {s s' : BurnSystem} {as : List BurnAction}
    (hrun : Transition.run (BurnSystem.step env) s as = some s') :
    s.wallet.db.ledger.Ages s'.wallet.db.ledger :=
  Transition.inv_of_steps (I := fun t => s.wallet.db.ledger.Ages t.wallet.db.ledger)
    (fun _ _ _ h hstep => h.trans (BurnSystem.ages_step hstep)) (.refl _) hrun

/-- The payment that is mined, rolled back and confirmed late: at the end the wallet still has its
rows of the beginning. -/
theorem confirmedAfterRollback_ages : ∃ s', Transition.run (BurnSystem.step plainTransactionEnv)
    { wallet := { db := fundedDb } } (confirmedAfterRollback.map .wallet) = some s' ∧
    fundedDb.ledger.Ages s'.wallet.db.ledger := by
  obtain ⟨s', hrun, -⟩ := Transition.exists_run_of_any (f := BurnSystem.step plainTransactionEnv)
    (s := { wallet := { db := fundedDb } }) (l := confirmedAfterRollback.map .wallet)
    (q := fun s => s.wallet.db.completedTransactions.rows.length == 1) (by decide +kernel)
  have hages := ledger_never_forgets plainTransactionEnv hrun
  dsimp only at hages
  exact ⟨s', hrun, hages⟩

end MinotariWallet
