import MinotariWallet.Transactions.AppendOnly

set_option autoImplicit false

/-! # What calls and blocks leave alone

Calls record what happens as events, webhooks and displayed transactions, and their other statements
write outputs, pending and completed transactions. A view of the database that misses these tables
stays as it is. -/

namespace MinotariWallet

open Sql Exec

/-- The view misses what is written to record what happened, of the events those with `K`. -/
structure RecordView {τ : Type} (K : AccountId → WalletEvent → Prop) (v : Db → τ) : Prop where
  events : ∀ (db : Db) accountId event, K accountId event →
    v (db.insertWalletEvent accountId event).2 = v db
  webhooks : ∀ (db : Db) webhookQueue, v { db with webhookQueue } = v db
  displayed : ∀ (db : Db) displayedTransactions, v { db with displayedTransactions } = v db

/-- The view misses what the other statements of the calls write. -/
structure StatementView {τ : Type} (v : Db → τ) : Prop where
  outputs : ∀ (db : Db) outputs, v { db with outputs } = v db
  pending : ∀ (db : Db) pendingTransactions, v { db with pendingTransactions } = v db
  completed : ∀ (db : Db) completedTransactions, v { db with completedTransactions } = v db

/-- The view misses what a block writes besides. -/
structure BlockView {τ : Type} (v : Db → τ) : Prop where
  outputs : ∀ (db : Db) outputs, v { db with outputs } = v db
  inputs : ∀ (db : Db) inputs, v { db with inputs } = v db
  balanceChanges : ∀ (db : Db) balanceChanges, v { db with balanceChanges } = v db
  tips : ∀ (db : Db) scannedTipBlocks, v { db with scannedTipBlocks } = v db

/-- The events that the monitor stores. -/
def WalletEventType.aboutTransaction : WalletEventType → Bool
  | .transactionBroadcast .. => true
  | .transactionUnconfirmed .. => true
  | .transactionConfirmed .. => true
  | .transactionRejected .. => true
  | _ => false

section Calls

variable {τ : Type} {K : AccountId → WalletEvent → Prop} {v : Db → τ}

theorem TransactionMonitor.persistEvent_keepsView (hv : RecordView K v) (m : TransactionMonitor)
    {event : WalletEvent} (hK : K m.accountId event) (now : Timestamp) :
    Keeps v (m.persistEvent event now) :=
  Keeps.bind (Keeps.insert (fun db => hv.events db _ _ hK))
    (fun _ => triggerWebhooks_keepsView hv.webhooks _ _ _ _)

theorem TransactionMonitor.persistRejected_keepsView (hv : RecordView K v) (m : TransactionMonitor)
    (txId : TxId) {event : WalletEvent} (hK : K m.accountId event) (now : Timestamp) :
    Keeps v (m.persistRejected txId event now) := by
  refine Keeps.bind (Keeps.bind Keeps.query (fun row => ?_))
    (fun _ => m.persistEvent_keepsView hv hK now)
  cases row with
  | none => exact Keeps.pure
  | some row => exact Keeps.bind (Keeps.update (fun db => hv.displayed db _)) (fun _ => Keeps.pure)

variable {env : TransactionEnv} {ch : Choice} {db : Db} {y : DbM Unit} {hy : Keeps Db.ledger y}

theorem recording_record {z : DbM Unit} {hz : Keeps Db.ledger z} {next st' : MonitorState}
    (h : TransactionMonitor.recording db z hz next = some (.record y hy, st')) : y = z := by
  unfold TransactionMonitor.recording at h
  cases h
  rfl

/-- What the monitor records is an event, in the branches for a rejection with what is displayed. -/
theorem MonitorState.next_record {m : TransactionMonitor} {st st' : MonitorState}
    (h : st.next env ch db m = some (.record y hy, st')) :
    ∃ event now, event.eventType.aboutTransaction = true ∧
      (y = m.persistEvent event now ∨ ∃ txId, y = m.persistRejected txId event now) := by
  cases st with
  | recordRejected tx reason todo => exact ⟨_, _, rfl, Or.inr ⟨_, recording_record h⟩⟩
  | recordBroadcast tx todo => exact ⟨_, _, rfl, Or.inl (recording_record h)⟩
  | recordMined tx blockHeight todo => exact ⟨_, _, rfl, Or.inl (recording_record h)⟩
  | recordConfirmed tx minedHeight todo => exact ⟨_, _, rfl, Or.inl (recording_record h)⟩
  | checkConfirmation todo =>
      simp only [MonitorState.next] at h
      split at h
      · cases h
      · split at h
        · cases h
        · split at h
          · split at h <;> cases h
          · cases h
  | rebroadcast todo =>
      simp only [MonitorState.next] at h
      split at h
      · cases h
      · split at h <;> cases h
  | checkMining todo =>
      simp only [MonitorState.next] at h
      split at h
      · cases h
      · split at h <;> cases h
  | _ =>
      simp only [MonitorState.next] at h
      cases h

/-- Besides the monitor only finalizing records something: the displayed transaction. -/
theorem Call.next_record {c c' : Call} (h : c.next env ch db = some (.record y hy, c')) :
    (∃ tx, y = update (·.insertDisplayedTransaction tx)) ∨
      ∃ m st, c = .monitor m st ∧ ∃ event now, event.eventType.aboutTransaction = true ∧
        (y = m.persistEvent event now ∨ ∃ txId, y = m.persistRejected txId event now) := by
  cases c with
  | lock req st =>
      obtain ⟨⟨x, st'⟩, hnext, heq⟩ := Option.map_eq_some_iff.mp h
      cases heq
      cases LockState.next_step hnext
  | start req st =>
      obtain ⟨⟨x, st'⟩, hnext, heq⟩ := Option.map_eq_some_iff.mp h
      cases heq
      cases StartState.next_step hnext
  | finalize prepared signed st =>
      obtain ⟨⟨x, st'⟩, hnext, heq⟩ := Option.map_eq_some_iff.mp h
      cases heq
      cases st <;> simp only [FinalizeState.next] at hnext <;> (try split at hnext) <;> cases hnext
      exact Or.inl ⟨_, rfl⟩
  | unlocker st =>
      obtain ⟨⟨x, st'⟩, hnext, heq⟩ := Option.map_eq_some_iff.mp h
      cases heq
      cases UnlockerState.step_step hnext
  | monitor m st =>
      obtain ⟨⟨x, st'⟩, hnext, heq⟩ := Option.map_eq_some_iff.mp h
      cases heq
      exact Or.inr ⟨m, st, rfl, MonitorState.next_record hnext⟩

/-- What a call records: a displayed transaction, or an event about a transaction. -/
def CallRecord (y : DbM Unit) : Prop :=
  (∃ tx, y = update (·.insertDisplayedTransaction tx)) ∨
    ∃ (m : TransactionMonitor) (event : WalletEvent) (now : Timestamp),
      event.eventType.aboutTransaction = true ∧
      (y = m.persistEvent event now ∨ ∃ txId, y = m.persistRejected txId event now)

theorem Call.next_callRecord {c c' : Call} (h : c.next env ch db = some (.record y hy, c')) :
    CallRecord y := by
  rcases Call.next_record h with hdisplayed | ⟨m, st, -, event, now, habout, hy⟩
  · exact Or.inl hdisplayed
  · exact Or.inr ⟨m, event, now, habout, hy⟩

theorem CallRecord.keepsView (hv : RecordView K v)
    (hK : ∀ accountId event, event.eventType.aboutTransaction = true → K accountId event)
    (h : CallRecord y) : Keeps v y := by
  rcases h with ⟨tx, rfl⟩ | ⟨m, event, now, habout, rfl | ⟨txId, rfl⟩⟩
  · exact Keeps.update (fun db => insertDisplayedTransaction_keepsView hv.displayed db _)
  · exact m.persistEvent_keepsView hv (hK _ _ habout) now
  · exact m.persistRejected_keepsView hv txId (hK _ _ habout) now

theorem lockOutputs_view (hv : StatementView v) (db : Db) (utxos : List DbWalletOutput)
    (req : RequestId) (now : Timestamp) : v (db.lockOutputs utxos req now) = v db := by
  induction utxos generalizing db with
  | nil => rfl
  | cons u rest ih => exact (ih _).trans (hv.outputs db _)

/-- A statement changes such a view only by what it records. -/
theorem Statement.apply_view (hv : StatementView v) {x : Statement}
    (hrecord : ∀ y hy, x = .record y hy → Keeps v y) : v (x.apply db) = v db := by
  cases x with
  | read => rfl
  | record y hy => exact hrecord y hy rfl ⟨db, none⟩
  | createPendingTransaction new =>
      cases hc : db.createPending new with
      | error e => simp [Statement.apply, hc, Except.toOption]
      | ok db' =>
          rw [apply_createPending hc]
          obtain ⟨_, -, -, -, -, -, _, -, rfl⟩ := createPending_ok hc
          exact hv.pending db _
  | createPendingTransactionAndLock new =>
      cases hc : db.createPending new with
      | error e => simp [Statement.apply, Db.createPendingAndLock, hc, Except.toOption, Except.map]
      | ok db' =>
          rw [apply_createPendingAndLock hc]
          obtain ⟨_, -, -, -, -, -, _, -, rfl⟩ := createPending_ok hc
          exact (lockOutputs_view hv _ _ _ _).trans (hv.pending db _)
  | lockOutput outputId req now => exact hv.outputs db _
  | updatePendingTransactionStatus id status => exact hv.pending db _
  | unlockOutputsForRequest id => exact hv.outputs db _
  | expireAndUnlock id => exact (hv.outputs _ _).trans (hv.pending db _)
  | createCompletedTransaction new =>
      cases hc : db.createCompleted new with
      | error e => simp [Statement.apply, hc, Except.toOption]
      | ok db' =>
          rw [apply_createCompleted hc]
          obtain ⟨_, -, -, -, -, -, _, -, rfl⟩ := createCompleted_ok hc
          exact hv.completed db _
  | _ => exact hv.completed db _

end Calls

section Block

variable {τ : Type} {K : AccountId → WalletEvent → Prop} {v : Db → τ}

theorem insertInput_keepsView (hinputs : ∀ (db : Db) inputs, v { db with inputs } = v db)
    (accountId : AccountId) (outputId : Id) (height : Nat) (blockHash : FixedHash)
    (minedTimestamp : Nat) :
    Keeps v (insertInput accountId outputId height blockHash minedTimestamp) := by
  unfold insertInput
  split
  · exact Keeps.throw
  · refine Keeps.bind (Keeps.update (fun db => ?_)) (fun _ => Keeps.tryQuery)
    unfold Db.insertOrIgnoreInput
    split
    · rfl
    · exact hinputs db _

variable {env : ScanEnv} {bp : BlockProcessor} {now : Timestamp} {block : BlockScanResult}
  {accountId : AccountId}

theorem processOutputs_keepsView (hr : RecordView K v) (hK : ∀ event, K accountId event)
    (hv : BlockView v) (key : PrivateKey) (acc : BlockEventAccumulator) :
    Keeps v (BlockProcessor.processOutputs env bp now block accountId key acc) := by
  refine Keeps.bind (Keeps.foldlM (fun st w => ?_))
    (fun st => Keeps.bind (triggerWebhooks_keepsView hr.webhooks _ _ _ _) (fun _ => Keeps.pure))
  obtain ⟨hash, output, walletIdx⟩ := w
  unfold BlockProcessor.processOutput
  dsimp only
  split
  · exact Keeps.pure
  · refine Keeps.ite Keeps.pure (Keeps.bind (Keeps.stmt (fun db id db' hins => ?_)) (fun id => ?_))
    · obtain ⟨_, -, -, -, rfl⟩ := insertOutput_ok hins
      exact hv.outputs db _
    · exact Keeps.bind (Keeps.insert (fun db => hr.events db _ _ (hK _))) (fun _ =>
        Keeps.bind (Keeps.insert (fun db => hv.balanceChanges db _)) (fun _ => Keeps.pure))

theorem processInputs_keepsView (hinputs : ∀ (db : Db) inputs, v { db with inputs } = v db)
    (hchanges : ∀ (db : Db) balanceChanges, v { db with balanceChanges } = v db)
    (hspent : ∀ (db : Db) outputId, v (db.updateOutputStatus outputId .spent) = v db)
    (acc : BlockEventAccumulator) :
    Keeps v (BlockProcessor.processInputs now block accountId acc) := by
  refine Keeps.foldlM (fun acc hash => Keeps.bind Keeps.query (fun info => ?_))
  cases info with
  | none => exact Keeps.pure
  | some info =>
      exact Keeps.bind (insertInput_keepsView hinputs _ _ _ _ _) (fun _ =>
        Keeps.bind (Keeps.insert (fun db => hchanges db _)) (fun _ =>
          Keeps.bind (Keeps.update (fun db => hspent db _)) (fun _ => Keeps.pure)))

theorem processBlock_keepsView (hr : RecordView K v) (hK : ∀ event, K accountId event)
    (hv : BlockView v) : Keeps v (bp.processBlock env now block accountId) := by
  refine Keeps.bind ?_ (fun key => Keeps.bind (processOutputs_keepsView hr hK hv key _) (fun st =>
    Keeps.bind (processInputs_keepsView hv.inputs hv.balanceChanges (fun db _ => hv.outputs db _) _)
      (fun acc => Keeps.bind (Keeps.update (fun db => ?_)) (fun _ => Keeps.bind ?_ (fun confirmed =>
        Keeps.bind (saveAndEmitDisplayedTransactions_keepsView hr.displayed _ _ _ _ _ _)
          (fun _ => Keeps.pure))))))
  · cases bp.accountViewKey accountId with
    | ok key => exact Keeps.pure
    | error e => exact Keeps.throw
  · unfold Db.insertScannedTipBlock
    split
    · rfl
    · exact hv.tips db _
  · exact Keeps.bind Keeps.query (fun _ => Keeps.bind (Keeps.foldlM (fun _ _ =>
      Keeps.bind (Keeps.insert (fun db => hr.events db _ _ (hK _))) (fun _ =>
        Keeps.bind (Keeps.update (fun db => hv.outputs db _)) (fun _ => Keeps.pure))))
      (fun _ => Keeps.bind (triggerWebhooks_keepsView hr.webhooks _ _ _ _) (fun _ => Keeps.pure)))

/-- What the parts of a block carry, the whole block carries. -/
theorem processBlock_carries {I : Db → Prop}
    (houtputs : ∀ key acc, Ensures I
      (BlockProcessor.processOutputs env bp now block accountId key acc) (fun _ => I))
    (hinputs : ∀ acc, Ensures I (BlockProcessor.processInputs now block accountId acc) (fun _ => I))
    (hconfirm : Ensures I (bp.processConfirmations now block accountId) (fun _ => I))
    (htips : ∀ (db : Db) scannedTipBlocks, I db → I { db with scannedTipBlocks })
    (hdisplayed : ∀ (db : Db) displayedTransactions, I db → I { db with displayedTransactions }) :
    Ensures I (bp.processBlock env now block accountId) (fun _ => I) := by
  unfold BlockProcessor.processBlock
  refine Ensures.bind (Q := fun _ => I) (Ensures.lift (fun _ _ h _ => h)) (fun key => ?_)
  refine Ensures.bind (houtputs key _) (fun st => ?_)
  refine Ensures.bind (hinputs st.acc) (fun acc => ?_)
  refine Ensures.bind (Q := fun _ => I) (Ensures.update (fun db h => ?_)) (fun _ => ?_)
  · unfold Db.insertScannedTipBlock
    split
    · exact h
    · exact htips db _ h
  refine Ensures.bind hconfirm (fun confirmed => ?_)
  -- only the displayed transactions are written from here on
  have hkeeps := saveAndEmitDisplayedTransactions_keepsView
    (v := fun db : Db => { db with displayedTransactions := Table.empty }) (fun _ _ => rfl) env bp
    block.height accountId key acc
  refine Ensures.bind (hkeeps.carries (I := I) (fun db db' heq h => ?_))
    (fun ready => Ensures.pure (fun _ h => h))
  have hdb : db' = { db with displayedTransactions := db'.displayedTransactions } :=
    congrArg (fun d : Db => { d with displayedTransactions := db'.displayedTransactions }) heq
  exact hdb ▸ hdisplayed db db'.displayedTransactions h

end Block

/-! ## Runs -/

section Runs

variable {τ : Type} {v : Db → τ} {env : TransactionEnv}

/-- Of all steps of the wallet only rollbacks change such a view. -/
theorem WalletSystem.step_view (hr : RecordView (fun _ _ => True) v) (hs : StatementView v)
    (hb : BlockView v) {s s' : WalletSystem} {a : SystemAction} (h : s.step env a = some s')
    (ha : ∀ accountId height webhookConfig now,
      a ≠ .rollbackFromHeight accountId height webhookConfig now) : v s'.db = v s.db := by
  rcases step_db h with hdb | ⟨i, ch, rfl⟩ | ⟨bp, block, accountId, now, rfl⟩ |
    ⟨accountId, height, webhookConfig, now, rfl⟩
  · rw [hdb]
  · obtain ⟨c, x, c', -, hnext, -, rfl⟩ := step_statement h
    exact Statement.apply_view hs (fun y hy hx =>
      (Call.next_callRecord (hx ▸ hnext)).keepsView hr (fun _ _ _ => trivial))
  · obtain ⟨⟨outcome, db⟩, hrun, rfl⟩ := Option.map_eq_some_iff.mp h
    obtain ⟨c', hret, rfl⟩ := runOk_eq_some.mp hrun
    have hkeeps : Keeps v (bp.processBlock env.toScanEnv now block accountId) :=
      processBlock_keepsView hr (fun _ => trivial) hb
    have hview := hkeeps ⟨s.db, none⟩
    rwa [after, hret] at hview
  · exact absurd rfl (ha accountId height webhookConfig now)

theorem BurnState.next_noRecord {ch : Choice} {db : Db} {result : BurnTxResult} {st st' : BurnState}
    {y : DbM Unit} {hy : Keeps Db.ledger y} :
    st.next ch db result ≠ some (.record y hy, st') := by
  intro h
  cases st <;> simp only [BurnState.next] at h <;> (try split at h) <;> cases h

/-- What statements, blocks and rollbacks carry, every step carries. -/
theorem BurnSystem.step_carries {I : Db → Prop}
    (hstatement : ∀ (db : Db) (x : Statement), (∀ y hy, x = .record y hy → CallRecord y) → I db →
      I (x.apply db))
    (hblock : ∀ (bp : BlockProcessor) block accountId now,
      Ensures I (bp.processBlock env.toScanEnv now block accountId) (fun _ => I))
    (hrollback : ∀ accountId height webhookConfig now,
      Ensures I (rollbackFromHeight accountId height webhookConfig now) (fun _ => I))
    {s s' : BurnSystem} {a : BurnAction} (h : I s.wallet.db) (hstep : s.step env a = some s') :
    I s'.wallet.db := by
  rcases step_db hstep with ⟨b, rfl, hb⟩ | ⟨i, ch, result, st, x, st', rfl, -, hnext, hdb⟩ |
    ⟨-, -, hdb⟩
  · rcases WalletSystem.step_db hb with hdb | ⟨i, ch, rfl⟩ | ⟨bp, block, accountId, now, rfl⟩ |
      ⟨accountId, height, webhookConfig, now, rfl⟩
    · rw [hdb]
      exact h
    · obtain ⟨c, x, c', -, hnext, -, heq⟩ := WalletSystem.step_statement hb
      rw [heq]
      exact hstatement _ x (fun y hy hx => Call.next_callRecord (hx ▸ hnext)) h
    · obtain ⟨⟨outcome, db⟩, hrun, heq⟩ := Option.map_eq_some_iff.mp hb
      rw [← heq]
      exact (hblock bp block accountId now).of_runOk h hrun
    · obtain ⟨⟨info, db⟩, hrun, heq⟩ := Option.map_eq_some_iff.mp hb
      rw [← heq]
      exact (hrollback accountId height webhookConfig now).of_runOk h hrun
  · rw [hdb]
    exact hstatement _ x (fun y hy hx => absurd (hx ▸ hnext) BurnState.next_noRecord) h
  · rw [hdb]
    exact h

theorem BurnSystem.step_view (hr : RecordView (fun _ _ => True) v) (hs : StatementView v)
    (hb : BlockView v) {s s' : BurnSystem} {a : BurnAction} (h : s.step env a = some s')
    (ha : ∀ accountId height webhookConfig now,
      a ≠ .wallet (.rollbackFromHeight accountId height webhookConfig now)) :
    v s'.wallet.db = v s.wallet.db := by
  rcases step_db h with ⟨b, rfl, hb'⟩ | ⟨i, ch, result, st, x, st', rfl, -, hnext, hdb⟩ | ⟨-, -, hdb⟩
  · exact WalletSystem.step_view hr hs hb hb' (fun accountId height webhookConfig now hba =>
      ha accountId height webhookConfig now (congrArg _ hba))
  · rw [hdb]
    exact Statement.apply_view hs (fun y hy hx => absurd (hx ▸ hnext) BurnState.next_noRecord)
  · rw [hdb]

end Runs

end MinotariWallet
