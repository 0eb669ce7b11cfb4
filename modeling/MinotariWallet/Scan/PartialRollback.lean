import MinotariWallet.Lib.FirstChange
import MinotariWallet.Ledger.Machine
import MinotariWallet.Scan.Places

set_option autoImplicit false

/-! # A rollback that fails

`handle_reorgs` runs `rollback_from_height` in a transaction, `rescan` of `main.rs` on the plain
connection. So what a failing rollback of `rescan` has done stays, unless it fails before its first
statement that changes something. -/

namespace MinotariWallet

open Sql Exec

/-- How many statements of `rollback_from_height` run before the first that changes something, which
    stores the event of a recorded block or of an output, reverses a debit, and so on in the order
    of the code; `none` when the rollback finds nothing to do. -/
def Db.readsBeforeChange (db : Db) (accountId : AccountId) (height : Nat) : Option Nat :=
  if db.scannedTipBlocks.exists? (fun b => b.accountId == accountId
      && decide ((height : Int) ≤ b.height)) then some 1
  else if db.outputs.exists? (OutputRow.activeFrom accountId height) then some 2
  else if db.getInputsToDelete accountId height ≠ [] then some 4
  else if db.inputs.exists? (InputRow.activeFrom accountId height) then some 3
  else if db.scannedTipBlocks.exists? (fun b => b.accountId == accountId
      && decide (asI64 height ≤ b.height)) then some 6
  else if db.displayedTransactions.exists? (fun d => d.fromHeight accountId height
      && !(d.payref.getD []).isEmpty) then some 8
  else if db.displayedTransactions.exists? (fun d => d.fromHeight accountId height
      && d.status != .reorganized) then some 9
  else if db.completedTransactions.exists? (CompletedTransactionRow.minedFrom accountId height) then
    some 10
  else none

/-- The rollback that the budget stops has changed nothing yet: the recorded blocks are unreadable,
    there is nothing to do, or the statement that fails is not past the first that changes
    something. -/
def StopsBeforeChange (db : Db) (accountId : AccountId) (height : Nat) (budget : Option Nat) : Prop :=
  (∃ b ∈ db.scannedTipBlocks.rows, b.accountId = accountId ∧ b.height < 0) ∨
    ∀ k, db.readsBeforeChange accountId height = some k → ∃ n, budget = some n ∧ n ≤ k

/-! ## What a rollback adds to -/

/-- What the statements of a rollback add to: the numbers of stored events, balance changes and old
    payment references, of rows marked as reversed, deleted, reorganized or reset, and of recorded
    blocks gone. -/
def Db.traces (db : Db) : Int :=
  db.events.seq + db.balanceChanges.seq + db.payrefHistory.seq
    + db.balanceChanges.countWhere (·.isReversed)
    + db.inputs.countWhere (fun i => !i.active)
    + db.displayedTransactions.countWhere (fun d => d.status == .reorganized)
    + db.completedTransactions.countWhere (fun c => c.status == .completed)
    - db.scannedTipBlocks.rows.length

variable {accountId : AccountId} {height : Nat} {now : Timestamp} {n : Int}

theorem traces_insertWalletEvent (db : Db) (event : WalletEvent) :
    (db.insertWalletEvent accountId event).2.traces = db.traces + 1 := by
  simp only [Db.traces, Db.insertWalletEvent, AutoTable.seq_insert]
  push_cast
  omega

theorem traces_savePayrefHistory (db : Db) (id : TxId) (payref : PaymentReference)
    (outputHash : Option FixedHash) :
    (db.savePayrefHistory accountId id payref outputHash now).traces = db.traces + 1 := by
  simp only [Db.traces, Db.savePayrefHistory, AutoTable.seq_insert]
  push_cast
  omega

theorem traces_insertBalanceChange (db : Db) (change : BalanceChange) :
    db.traces < (db.insertBalanceChange change).2.traces := by
  have hcount : db.balanceChanges.countWhere (·.isReversed) ≤
      (db.insertBalanceChange change).2.balanceChanges.countWhere (·.isReversed) := by
    simp [Table.countWhere, Db.insertBalanceChange, AutoTable.insert]
  have hseq : (db.insertBalanceChange change).2.balanceChanges.seq = db.balanceChanges.seq + 1 := rfl
  simp only [Db.traces, Db.insertBalanceChange] at hcount hseq ⊢
  omega

theorem traces_markBalanceChangeAsReversed (db : Db) (id : Id) :
    db.traces ≤ (db.markBalanceChangeAsReversed id).traces := by
  have hcount : db.balanceChanges.countWhere (·.isReversed) ≤
      (db.markBalanceChangeAsReversed id).balanceChanges.countWhere (·.isReversed) :=
    Table.countWhere_le_updateWhere (fun _ _ _ => rfl) (by intro _; rfl)
  simp only [Db.traces, Db.markBalanceChangeAsReversed, AutoTable.seq_updateWhere] at hcount ⊢
  omega

theorem traces_setInputsDeleted (db : Db) :
    db.traces ≤ (db.setInputsDeleted accountId height now).traces := by
  have hcount : db.inputs.countWhere (fun i => !i.active) ≤
      (db.setInputsDeleted accountId height now).inputs.countWhere (fun i => !i.active) :=
    Table.countWhere_le_updateWhere (fun _ _ _ => rfl) (by intro _; rfl)
  simp only [Db.traces, Db.setInputsDeleted] at hcount ⊢
  omega

theorem traces_deleteScannedTipBlocks (db : Db) :
    db.traces ≤ (db.deleteScannedTipBlocksFromHeight accountId height).traces := by
  have hlength : (db.deleteScannedTipBlocksFromHeight accountId height).scannedTipBlocks.rows.length ≤
      db.scannedTipBlocks.rows.length := List.length_filter_le _ _
  simp only [Db.traces, Db.deleteScannedTipBlocksFromHeight] at hlength ⊢
  omega

theorem traces_setDisplayedTransactionStatus (db : Db) (id : TxId) {tx : DisplayedTransaction}
    (htx : tx.status = .reorganized) :
    db.traces ≤ (db.setDisplayedTransactionStatus id tx).traces := by
  have hcount : db.displayedTransactions.countWhere (fun d => d.status == .reorganized) ≤
      (db.setDisplayedTransactionStatus id tx).displayedTransactions.countWhere
        (fun d => d.status == .reorganized) :=
    Table.countWhere_le_updateWhere (fun _ _ _ => by simp [htx]) (by intro _; rfl)
  simp only [Db.traces, Db.setDisplayedTransactionStatus] at hcount ⊢
  omega

theorem traces_resetMinedCompletedTransactions (db : Db) :
    db.traces ≤ (db.resetMinedCompletedTransactionsFromHeight accountId height now).traces := by
  have hcount : db.completedTransactions.countWhere (fun c => c.status == .completed) ≤
      (db.resetMinedCompletedTransactionsFromHeight accountId height now).completedTransactions.countWhere
        (fun c => c.status == .completed) :=
    Table.countWhere_le_updateWhere (fun _ _ _ => rfl) (by intro _; rfl)
  simp only [Db.traces, Db.resetMinedCompletedTransactionsFromHeight] at hcount ⊢
  omega

/-! ## Nothing is taken back -/

theorem update_staysMarked {f : Db → Db} (h : ∀ db, db.traces ≤ (f db).traces) :
    Stays (fun db => n < db.traces) (update f : DbM Unit) :=
  Stays.update (fun db hdb => lt_of_lt_of_le hdb (h db))

theorem logWalletEvents_staysMarked (events : List WalletEvent)
    (generatedEvents : List (Id × WalletEvent)) :
    Stays (fun db => n < db.traces) (events.foldlM (logWalletEvent accountId) generatedEvents) := by
  refine Stays.foldlM (fun _ event => Stays.bind (Stays.insert (fun db hdb => ?_))
    (fun _ => Stays.pure))
  rw [traces_insertWalletEvent]
  omega

theorem reverseBalanceChange_staysMarked (original : Db → Option Id)
    (reversal : Option Id → BalanceChange) :
    Stays (fun db => n < db.traces) (reverseBalanceChange original reversal) := by
  have hinsert : ∀ o, Stays (fun db => n < db.traces)
      (do let _ ← insert (·.insertBalanceChange (reversal o)) : DbM Unit) := fun o =>
    Stays.bind (Stays.insert (fun db hdb => lt_trans hdb (traces_insertBalanceChange db _)))
      (fun _ => Stays.pure)
  unfold reverseBalanceChange
  refine Stays.bind Stays.query (fun o => ?_)
  cases o with
  | none => exact hinsert none
  | some id =>
      exact Stays.bind
        (update_staysMarked (fun db => traces_markBalanceChangeAsReversed db id))
        (fun _ => hinsert (some id))

theorem softDeleteInputs_staysMarked :
    Stays (fun db => n < db.traces) (softDeleteInputsFromHeight accountId height now) :=
  Stays.bind Stays.query (fun _ => Stays.bind
    (Stays.forM (fun _ => reverseBalanceChange_staysMarked _ _))
    (fun _ => update_staysMarked traces_setInputsDeleted))

theorem softDeleteOutputs_staysMarked :
    Stays (fun db => n < db.traces) (softDeleteOutputsFromHeight accountId height now) :=
  Stays.bind Stays.query (fun _ => Stays.bind
    (Stays.forM (fun _ => reverseBalanceChange_staysMarked _ _))
    (fun _ => update_staysMarked (fun _ => le_refl _)))

theorem savePayrefs_staysMarked {ρ : Type} (rows : List ρ) (id : ρ → TxId)
    (payrefs : ρ → List PaymentReference) (outputHash : ρ → Option FixedHash) :
    Stays (fun db => n < db.traces) (rows.forM (fun row => (payrefs row).forM (fun payref =>
      update (·.savePayrefHistory accountId (id row) payref (outputHash row) now))) : DbM Unit) :=
  Stays.forM (fun _ => Stays.forM (fun _ => update_staysMarked (fun db => by
    rw [traces_savePayrefHistory]
    omega)))

theorem markDisplayedTransactions_staysMarked (rows : List DisplayedTransactionRow)
    (updated : List DisplayedTransaction) :
    Stays (fun db => n < db.traces) (rows.foldlM (fun updated row => do
      let tx := { row.transaction with status := .reorganized }
      update (·.setDisplayedTransactionStatus row.id tx)
      pure (updated ++ [tx])) updated : DbM (List DisplayedTransaction)) :=
  Stays.foldlM (fun _ _ => Stays.bind
    (update_staysMarked (fun db => traces_setDisplayedTransactionStatus db _ rfl))
    (fun _ => Stays.pure))

theorem triggerWebhooks_staysMarked (generatedEvents : List (Id × WalletEvent))
    (webhookConfig : Option WebhookTriggerConfig) :
    Stays (fun db => n < db.traces)
      (triggerWebhooks accountId generatedEvents webhookConfig now) := by
  cases webhookConfig with
  | none => exact Stays.pure
  | some config =>
      refine Stays.forM (fun e => Stays.ite ?_ Stays.pure)
      refine Stays.bind ?_ (fun balance => Stays.bind (Stays.insert (fun db hdb => hdb))
        (fun _ => Stays.pure))
      exact Stays.bind Stays.tryQuery (fun _ => Stays.bind Stays.tryQuery (fun _ => Stays.pure))

/-! ## Where each part changes something first -/

section Stages

variable {db : Db}

theorem logWalletEvents_firstChange {events : List WalletEvent} (hne : events ≠ [])
    (generatedEvents : List (Id × WalletEvent)) :
    FirstChange (fun s => db.traces < s.traces) 0
      (events.foldlM (logWalletEvent accountId) generatedEvents) db := by
  cases events with
  | nil => exact absurd rfl hne
  | cons event rest =>
      rw [List.foldlM_cons]
      refine FirstChange.bind ?_ (fun _ => logWalletEvents_staysMarked rest _)
      refine FirstChange.bind (FirstChange.insert ?_) (fun _ => Stays.pure)
      rw [traces_insertWalletEvent]
      omega

/-- The lookup of a reversal finds a change that is not reversed, so marking it is a change. -/
theorem reverseBalanceChange_firstChange {p : BalanceChangeRow → Bool}
    (reversal : Option Id → BalanceChange) :
    FirstChange (fun s => db.traces < s.traces) 1
      (reverseBalanceChange (·.lastActiveBalanceChangeId p) reversal) db := by
  have hinsert : ∀ o s, Stays (fun s' : Db => (s : Db).traces < s'.traces)
      (do let _ ← insert (·.insertBalanceChange (reversal o)) : DbM Unit) := fun o s =>
    Stays.bind (Stays.insert (fun db hdb => lt_trans hdb (traces_insertBalanceChange db _)))
      (fun _ => Stays.pure)
  unfold reverseBalanceChange
  refine FirstChange.of_reads (l := 0) Reads.query ?_
  cases hfound : db.lastActiveBalanceChangeId p with
  | none =>
      exact FirstChange.bind (FirstChange.insert (traces_insertBalanceChange db _))
        (fun _ => Stays.pure)
  | some id =>
      obtain ⟨b, hb, hid, -, hactive⟩ := lastActiveBalanceChangeId_some hfound
      refine FirstChange.bind (FirstChange.update ?_) (fun _ => hinsert (some id) db)
      have hcount : db.balanceChanges.countWhere (·.isReversed) <
          (db.markBalanceChangeAsReversed id).balanceChanges.countWhere (·.isReversed) := by
        refine Table.countWhere_lt_updateWhere (fun _ _ => rfl) ⟨b, hb, by simp [hid], ?_⟩
          (by intro _; rfl)
        simp only [BalanceChangeRow.active, Bool.and_eq_true, Bool.not_eq_true'] at hactive
        exact hactive.2
      simp only [Db.traces, Db.markBalanceChangeAsReversed, AutoTable.seq_updateWhere] at hcount ⊢
      omega

theorem softDeleteInputs_firstChange (h : db.getInputsToDelete accountId height ≠ []) :
    FirstChange (fun s => db.traces < s.traces) 2 (softDeleteInputsFromHeight accountId height now)
      db := by
  unfold softDeleteInputsFromHeight
  refine FirstChange.of_reads (l := 1) Reads.query ?_
  refine FirstChange.bind ?_ (fun _ => update_staysMarked traces_setInputsDeleted)
  cases hrows : db.getInputsToDelete accountId height with
  | nil => exact absurd hrows h
  | cons row rest =>
      exact FirstChange.bind (reverseBalanceChange_firstChange _)
        (fun _ => Stays.forM (fun _ => reverseBalanceChange_staysMarked _ _))

theorem deletesInputs_firstChange (hnone : db.getInputsToDelete accountId height = [])
    (h : db.inputs.exists? (InputRow.activeFrom accountId height) = true) :
    FirstChange (fun s => db.traces < s.traces) 1 (softDeleteInputsFromHeight accountId height now)
      db := by
  unfold softDeleteInputsFromHeight
  refine FirstChange.of_reads (l := 0) Reads.query ?_
  rw [hnone]
  refine FirstChange.of_reads (l := 0) Reads.pure (FirstChange.update ?_)
  obtain ⟨i, hi, hfrom⟩ := Table.exists?_eq_true.mp h
  have hcount : db.inputs.countWhere (fun i => !i.active) <
      (db.setInputsDeleted accountId height now).inputs.countWhere (fun i => !i.active) :=
    Table.countWhere_lt_updateWhere (fun _ _ => rfl)
      ⟨i, hi, hfrom, by simp [(InputRow.activeFrom_eq_true.mp hfrom).2]⟩
      (by intro _; rfl)
  simp only [Db.traces, Db.setInputsDeleted] at hcount ⊢
  omega

theorem softDeleteInputs_reads (hnone : db.getInputsToDelete accountId height = [])
    (h : ¬db.inputs.exists? (InputRow.activeFrom accountId height) = true) :
    Reads (softDeleteInputsFromHeight accountId height now) db 2 () := by
  unfold softDeleteInputsFromHeight
  refine Reads.bind (l := 1) Reads.query ?_
  rw [hnone]
  refine Reads.bind (l := 1) Reads.pure (Reads.update ?_)
  have hsame := AutoTable.updateWhere_none (t := db.inputs) (f := fun i => { i with
    deletedAt := some now, deletedInBlockHeight := some (asI64 height) })
    (Table.exists?_eq_false.mp (Bool.not_eq_true _ ▸ h)) (fun _ => rfl)
  simp only [Db.setInputsDeleted, hsame]

theorem softDeleteOutputs_reads
    (h : ¬db.outputs.exists? (OutputRow.activeFrom accountId height) = true) :
    Reads (softDeleteOutputsFromHeight accountId height now) db 2 () := by
  have hnone := Table.exists?_eq_false.mp (Bool.not_eq_true _ ▸ h)
  unfold softDeleteOutputsFromHeight
  refine Reads.bind (l := 1) Reads.query ?_
  have hrows : db.getOutputsToDelete accountId height = [] := by
    simp only [Db.getOutputsToDelete, List.map_eq_nil_iff, Table.select, List.filter_eq_nil_iff]
    exact fun o ho => by simp [hnone o ho]
  rw [hrows]
  refine Reads.bind (l := 1) Reads.pure (Reads.update ?_)
  have hsame := AutoTable.updateWhere_none (t := db.outputs) (f := fun o => { o with
    deletedAt := some now, deletedInBlockHeight := some (asI64 height), paymentReference := none })
    hnone (fun _ => rfl)
  simp only [Db.setOutputsDeleted, hsame]

theorem deleteScannedTipBlocks_firstChange
    (h : db.scannedTipBlocks.exists? (fun b => b.accountId == accountId
      && decide (asI64 height ≤ b.height)) = true) :
    FirstChange (fun s => db.traces < s.traces) 0
      (update (·.deleteScannedTipBlocksFromHeight accountId height) : DbM Unit) db := by
  refine FirstChange.update ?_
  obtain ⟨b, hb, hfrom⟩ := Table.exists?_eq_true.mp h
  have hlength : (db.deleteScannedTipBlocksFromHeight accountId height).scannedTipBlocks.rows.length <
      db.scannedTipBlocks.rows.length :=
    List.length_filter_lt_length_iff_exists.mpr ⟨b, hb, by simpa using hfrom⟩
  simp only [Db.traces, Db.deleteScannedTipBlocksFromHeight] at hlength ⊢
  omega

theorem deleteScannedTipBlocks_reads
    (h : ¬db.scannedTipBlocks.exists? (fun b => b.accountId == accountId
      && decide (asI64 height ≤ b.height)) = true) :
    Reads (update (·.deleteScannedTipBlocksFromHeight accountId height) : DbM Unit) db 1 () := by
  refine Reads.update ?_
  have hsame := AutoTable.deleteWhere_none (Table.exists?_eq_false.mp (Bool.not_eq_true _ ▸ h))
  simp only [Db.deleteScannedTipBlocksFromHeight, hsame]

theorem savePayrefs_firstChange {ρ : Type} {rows : List ρ} {payrefs : ρ → List PaymentReference}
    (id : ρ → TxId) (outputHash : ρ → Option FixedHash) (h : ∃ row ∈ rows, payrefs row ≠ []) :
    FirstChange (fun s => db.traces < s.traces) 0
      (rows.forM (fun row => (payrefs row).forM (fun payref =>
        update (·.savePayrefHistory accountId (id row) payref (outputHash row) now))) : DbM Unit)
      db := by
  have hsave : ∀ row (payrefs : List PaymentReference),
      Stays (fun s : Db => db.traces < s.traces) (payrefs.forM (fun payref =>
        update (·.savePayrefHistory accountId (id row) payref (outputHash row) now)) : DbM Unit) :=
    fun row payrefs => Stays.forM (fun _ => update_staysMarked (fun db => by
      rw [traces_savePayrefHistory]
      omega))
  have hfirst : ∀ row, payrefs row ≠ [] → FirstChange (fun s => db.traces < s.traces) 0
      ((payrefs row).forM (fun payref =>
        update (·.savePayrefHistory accountId (id row) payref (outputHash row) now)) : DbM Unit)
      db := by
    intro row hne
    cases hp : payrefs row with
    | nil => exact absurd hp hne
    | cons payref rest =>
        refine FirstChange.bind (FirstChange.update ?_) (fun _ => hsave row rest)
        rw [traces_savePayrefHistory]
        omega
  refine FirstChange.forM (fun row => hsave row (payrefs row)) (fun row _ => ?_) ?_
  · by_cases hp : payrefs row = []
    · refine Or.inl ?_
      rw [hp]
      exact Reads.pure
    · exact Or.inr (hfirst row hp)
  · obtain ⟨row, hrow, hne⟩ := h
    exact ⟨row, hrow, hfirst row hne⟩

theorem saveDisplayedTransactionPayrefs_firstChange
    (h : db.displayedTransactions.exists? (fun d => d.fromHeight accountId height
      && !(d.payref.getD []).isEmpty) = true) :
    FirstChange (fun s => db.traces < s.traces) 1
      (saveDisplayedTransactionPayrefsBeforeReorg accountId height now) db := by
  refine FirstChange.of_reads (l := 0) Reads.query
    (savePayrefs_firstChange DisplayedTransactionRow.id (fun _ => none) ?_)
  obtain ⟨d, hd, hp⟩ := Table.exists?_eq_true.mp h
  simp only [Bool.and_eq_true, Bool.not_eq_true', List.isEmpty_eq_false_iff] at hp
  refine ⟨d, Table.mem_select.mpr ⟨hd, ?_⟩, hp.2⟩
  cases hpayref : d.payref with
  | none => simp [hpayref] at hp
  | some payrefs => simp [hp.1]

theorem saveDisplayedTransactionPayrefs_reads
    (h : ¬db.displayedTransactions.exists? (fun d => d.fromHeight accountId height
      && !(d.payref.getD []).isEmpty) = true) :
    Reads (saveDisplayedTransactionPayrefsBeforeReorg accountId height now) db 1 () := by
  refine Reads.bind (l := 0) Reads.query (Reads.forM (fun d hd => ?_))
  obtain ⟨hd, hp⟩ := Table.mem_select.mp hd
  have hnone := Table.exists?_eq_false.mp (Bool.not_eq_true _ ▸ h) d hd
  simp only [Bool.and_eq_true] at hp
  simp only [hp.1, Bool.true_and, Bool.not_eq_false', List.isEmpty_iff] at hnone
  rw [hnone]
  exact Reads.pure

theorem saveCompletedTransactionPayrefs_firstChange
    (h : db.completedTransactions.exists? (fun c => c.minedFrom accountId height
      && c.sentPayref.isSome) = true) :
    FirstChange (fun s => db.traces < s.traces) 1
      (saveCompletedTransactionPayrefsBeforeReorg accountId height now) db := by
  refine FirstChange.of_reads (l := 0) Reads.query
    (savePayrefs_firstChange CompletedTransactionRow.id CompletedTransactionRow.sentOutputHash ?_)
  obtain ⟨c, hc, hp⟩ := Table.exists?_eq_true.mp h
  refine ⟨c, Table.mem_select.mpr ⟨hc, hp⟩, ?_⟩
  simp only [Bool.and_eq_true] at hp
  obtain ⟨payref, hpayref⟩ := Option.isSome_iff_exists.mp hp.2
  simp [hpayref]

theorem saveCompletedTransactionPayrefs_reads
    (h : ¬db.completedTransactions.exists? (fun c => c.minedFrom accountId height
      && c.sentPayref.isSome) = true) :
    Reads (saveCompletedTransactionPayrefsBeforeReorg accountId height now) db 1 () := by
  refine Reads.bind (l := 0) Reads.query (Reads.forM (fun c hc => ?_))
  obtain ⟨hc, hp⟩ := Table.mem_select.mp hc
  have hnone := Table.exists?_eq_false.mp (Bool.not_eq_true _ ▸ h) c hc
  exact absurd (hnone ▸ hp) Bool.false_ne_true

theorem resetMinedCompletedTransactions_firstChange
    (h : db.completedTransactions.exists? (CompletedTransactionRow.minedFrom accountId height) =
      true) :
    FirstChange (fun s => db.traces < s.traces) 0
      (update (·.resetMinedCompletedTransactionsFromHeight accountId height now) : DbM Unit) db := by
  refine FirstChange.update ?_
  obtain ⟨c, hc, hfrom⟩ := Table.exists?_eq_true.mp h
  have hcount : db.completedTransactions.countWhere (fun c => c.status == .completed) <
      (db.resetMinedCompletedTransactionsFromHeight accountId height now).completedTransactions.countWhere
        (fun c => c.status == .completed) := by
    refine Table.countWhere_lt_updateWhere (fun _ _ => rfl) ⟨c, hc, hfrom, ?_⟩ (by intro _; rfl)
    simp only [CompletedTransactionRow.minedFrom, Bool.and_eq_true, Bool.or_eq_true,
      beq_iff_eq] at hfrom
    rcases hfrom.1.2 with hs | hs <;> simp [hs]
  simp only [Db.traces, Db.resetMinedCompletedTransactionsFromHeight] at hcount ⊢
  omega

theorem resetMinedCompletedTransactions_reads
    (h : ¬db.completedTransactions.exists? (CompletedTransactionRow.minedFrom accountId height) =
      true) :
    Reads (update (·.resetMinedCompletedTransactionsFromHeight accountId height now) : DbM Unit)
      db 1 () := by
  refine Reads.update ?_
  have hsame := Table.updateWhere_none (t := db.completedTransactions)
    (f := CompletedTransactionRow.reset now)
    (Table.exists?_eq_false.mp (Bool.not_eq_true _ ▸ h)) (fun _ => rfl)
  simp only [Db.resetMinedCompletedTransactionsFromHeight, hsame]

theorem markDisplayedTransactions_firstChange
    (h : db.displayedTransactions.exists? (fun d => d.fromHeight accountId height
      && d.status != .reorganized) = true) :
    FirstChange (fun s => db.traces < s.traces) 1
      (markDisplayedTransactionsReorganizedAndReturn accountId height) db := by
  unfold markDisplayedTransactionsReorganizedAndReturn
  refine FirstChange.of_reads (l := 0) Reads.query ?_
  dsimp only
  cases hrows : db.displayedTransactions.select (fun d =>
      d.fromHeight accountId height && d.status != .reorganized) with
  | nil =>
      obtain ⟨d, hd, hp⟩ := Table.exists?_eq_true.mp h
      have hmem : d ∈ ([] : List DisplayedTransactionRow) :=
        hrows ▸ Table.mem_select.mpr ⟨hd, hp⟩
      cases hmem
  | cons row rest =>
      obtain ⟨hrow, hp⟩ := Table.mem_select.mp (hrows ▸ List.mem_cons_self)
      rw [List.foldlM_cons]
      refine FirstChange.bind ?_ (fun _ => markDisplayedTransactions_staysMarked rest _)
      refine FirstChange.bind (FirstChange.update ?_) (fun _ => Stays.pure)
      have hcount : db.displayedTransactions.countWhere (fun d => d.status == .reorganized) <
          (db.setDisplayedTransactionStatus row.id
            { row.transaction with status := .reorganized }).displayedTransactions.countWhere
            (fun d => d.status == .reorganized) := by
        refine Table.countWhere_lt_updateWhere (fun _ _ => rfl) ⟨row, hrow, by simp, ?_⟩
          (by intro _; rfl)
        simp only [Bool.and_eq_true, bne_iff_ne] at hp
        simpa using hp.2
      simp only [Db.traces, Db.setDisplayedTransactionStatus] at hcount ⊢
      omega

theorem markDisplayedTransactions_reads
    (h : ¬db.displayedTransactions.exists? (fun d => d.fromHeight accountId height
      && d.status != .reorganized) = true) :
    Reads (markDisplayedTransactionsReorganizedAndReturn accountId height) db 1 [] := by
  unfold markDisplayedTransactionsReorganizedAndReturn
  refine Reads.bind (l := 0) Reads.query ?_
  have hrows : db.displayedTransactions.select (fun d =>
      d.fromHeight accountId height && d.status != .reorganized) = [] := by
    have hnone := Table.exists?_eq_false.mp (Bool.not_eq_true _ ▸ h)
    exact List.filter_eq_nil_iff.mpr (fun d hd => by simp [hnone d hd])
  dsimp only
  rw [hrows]
  exact Reads.pure

end Stages

/-! ## The whole rollback -/

variable {db : Db} {webhookConfig : Option WebhookTriggerConfig}

theorem rolledBackBlocks_ne_nil (height : Nat) {tipBlocks : List ScannedTipBlock}
    (htips : db.getScannedTipBlocksByAccount accountId = .ok tipBlocks) :
    db.scannedTipBlocks.exists? (fun b => b.accountId == accountId
        && decide ((height : Int) ≤ b.height)) = true ↔
      tipBlocks.filter (fun b => height ≤ b.height) ≠ [] := by
  rw [Table.exists?_eq_true, ne_eq, List.filter_eq_nil_iff]
  simp only [Bool.and_eq_true, beq_iff_eq, decide_eq_true_eq, not_forall, not_not]
  constructor
  · rintro ⟨r, hr, ha, hle⟩
    have hheight := scannedTipBlocks_nonneg htips hr ha
    exact ⟨r.block, (mem_scannedTipBlocks htips).mpr ⟨r, hr, ha, rfl⟩, by omega⟩
  · rintro ⟨b, hb, hle⟩
    obtain ⟨r, hr, ha, rfl⟩ := (mem_scannedTipBlocks htips).mp hb
    have hheight := scannedTipBlocks_nonneg htips hr ha
    exact ⟨r, hr, ha, by omega⟩

theorem affectedOutputs_ne_nil (accountId : AccountId) (height : Nat) (db : Db) :
    db.outputs.exists? (OutputRow.activeFrom accountId height) = true ↔
      db.getActiveOutputsFromHeight accountId height ≠ [] := by
  simp [Db.getActiveOutputsFromHeight, Table.select, Table.exists?]

/-- What a rollback does once the outputs are deleted, but for the webhooks. -/
def clearRecords (accountId : AccountId) (height : Nat) (now : Timestamp) :
    DbM (List DisplayedTransaction) := do
  update (·.deleteScannedTipBlocksFromHeight accountId height)
  saveDisplayedTransactionPayrefsBeforeReorg accountId height now
  let reorganizedDisplayedTransactions ←
    markDisplayedTransactionsReorganizedAndReturn accountId height
  saveCompletedTransactionPayrefsBeforeReorg accountId height now
  update (·.resetMinedCompletedTransactionsFromHeight accountId height now)
  pure reorganizedDisplayedTransactions

theorem rollbackFromHeight_eq : rollbackFromHeight accountId height webhookConfig now = (do
    let tipBlocks ← tryQuery (·.getScannedTipBlocksByAccount accountId)
    let rolledBackBlocks := tipBlocks.filter (fun b => height ≤ b.height)
    let generatedEvents ← (rolledBackBlocks.map (blockRolledBackEvent accountId)).foldlM
      (logWalletEvent accountId) []
    let affectedOutputs ← query (·.getActiveOutputsFromHeight accountId height)
    let generatedEvents ← (affectedOutputs.map (outputRolledBackEvent accountId height)).foldlM
      (logWalletEvent accountId) generatedEvents
    let cancelledTransactionIds := cancelledPendingTxIds affectedOutputs
    cancelPendingTransactionsByIds cancelledTransactionIds .cancelled
    let generatedEvents ←
      (cancelledTransactionIds.map (pendingTransactionCancelledEvent accountId)).foldlM
        (logWalletEvent accountId) generatedEvents
    softDeleteInputsFromHeight accountId height now
    softDeleteOutputsFromHeight accountId height now
    let reorganizedDisplayedTransactions ← clearRecords accountId height now
    triggerWebhooks accountId generatedEvents webhookConfig now
    pure {
      rolledBackFromHeight := height
      rolledBackBlocksCount := rolledBackBlocks.length
      invalidatedOutputHashes := affectedOutputs.map (·.outputHash)
      cancelledTransactionIds, reorganizedDisplayedTransactions }) := by
  unfold rollbackFromHeight clearRecords
  simp only [bind_assoc, pure_bind]

section

variable {n : Int}

theorem saveDisplayedTransactionPayrefs_staysMarked : Stays (fun db => n < db.traces)
    (saveDisplayedTransactionPayrefsBeforeReorg accountId height now) :=
  Stays.bind Stays.query (fun _ => savePayrefs_staysMarked _ _ _ _)

theorem saveCompletedTransactionPayrefs_staysMarked : Stays (fun db => n < db.traces)
    (saveCompletedTransactionPayrefsBeforeReorg accountId height now) :=
  Stays.bind Stays.query (fun _ => savePayrefs_staysMarked _ _ _ _)

theorem markDisplayedTransactionsReorganized_staysMarked : Stays (fun db => n < db.traces)
    (markDisplayedTransactionsReorganizedAndReturn accountId height) :=
  Stays.bind Stays.query (fun _ => markDisplayedTransactions_staysMarked _ _)

theorem clearRecords_staysMarked :
    Stays (fun db => n < db.traces) (clearRecords accountId height now) :=
  Stays.bind (update_staysMarked traces_deleteScannedTipBlocks) (fun _ =>
    Stays.bind saveDisplayedTransactionPayrefs_staysMarked (fun _ =>
      Stays.bind markDisplayedTransactionsReorganized_staysMarked (fun _ =>
        Stays.bind saveCompletedTransactionPayrefs_staysMarked (fun _ =>
          Stays.bind (update_staysMarked traces_resetMinedCompletedTransactions)
            (fun _ => Stays.pure)))))

end

theorem clearRecords_firstAt : FirstAt (fun s => db.traces < s.traces) 6
    (if db.scannedTipBlocks.exists? (fun b => b.accountId == accountId
        && decide (asI64 height ≤ b.height)) then some 6
      else if db.displayedTransactions.exists? (fun d => d.fromHeight accountId height
        && !(d.payref.getD []).isEmpty) then some 8
      else if db.displayedTransactions.exists? (fun d => d.fromHeight accountId height
        && d.status != .reorganized) then some 9
      else if db.completedTransactions.exists?
        (CompletedTransactionRow.minedFrom accountId height) then some 10
      else none) (clearRecords accountId height now) db := by
  have hreset : Stays (fun s => db.traces < s.traces)
      (update (·.resetMinedCompletedTransactionsFromHeight accountId height now) : DbM Unit) :=
    update_staysMarked traces_resetMinedCompletedTransactions
  unfold clearRecords
  refine FirstAt.choose (l := 0) (k := 1) (a := ()) deleteScannedTipBlocks_firstChange
    deleteScannedTipBlocks_reads (fun _ => ?_) (fun _ =>
      Stays.bind saveDisplayedTransactionPayrefs_staysMarked (fun _ =>
        Stays.bind markDisplayedTransactionsReorganized_staysMarked (fun _ =>
          Stays.bind saveCompletedTransactionPayrefs_staysMarked (fun _ =>
            Stays.bind hreset (fun _ => Stays.pure)))))
  refine FirstAt.choose (l := 1) (k := 1) (a := ()) saveDisplayedTransactionPayrefs_firstChange
    saveDisplayedTransactionPayrefs_reads (fun _ => ?_) (fun _ =>
      Stays.bind markDisplayedTransactionsReorganized_staysMarked (fun _ =>
        Stays.bind saveCompletedTransactionPayrefs_staysMarked (fun _ =>
          Stays.bind hreset (fun _ => Stays.pure))))
  refine FirstAt.choose (l := 1) (k := 1) (a := []) markDisplayedTransactions_firstChange
    markDisplayedTransactions_reads (fun _ => ?_) (fun _ =>
      Stays.bind saveCompletedTransactionPayrefs_staysMarked (fun _ =>
        Stays.bind hreset (fun _ => Stays.pure)))
  -- the completed transactions with a payment reference are among those that are reset
  by_cases hsaved : db.completedTransactions.exists? (fun c => c.minedFrom accountId height
    && c.sentPayref.isSome) = true
  · have hmined : db.completedTransactions.exists?
        (CompletedTransactionRow.minedFrom accountId height) = true := by
      obtain ⟨c, hc, hp⟩ := Table.exists?_eq_true.mp hsaved
      simp only [Bool.and_eq_true] at hp
      exact Table.exists?_eq_true.mpr ⟨c, hc, hp.1⟩
    rw [if_pos hmined]
    exact FirstAt.change (FirstChange.bind (saveCompletedTransactionPayrefs_firstChange hsaved)
      (fun _ => Stays.bind hreset (fun _ => Stays.pure)))
  · refine FirstAt.after (saveCompletedTransactionPayrefs_reads hsaved) ?_
    exact FirstAt.choose (l := 0) (k := 1) (a := ()) resetMinedCompletedTransactions_firstChange
      resetMinedCompletedTransactions_reads (fun _ => FirstAt.pure) (fun _ => Stays.pure)

/-- Where the rollback changes something first, if the recorded blocks can be read. -/
theorem rollbackFromHeight_firstAt (height : Nat) (webhookConfig : Option WebhookTriggerConfig)
    (now : Timestamp) {tipBlocks : List ScannedTipBlock}
    (htips : db.getScannedTipBlocksByAccount accountId = .ok tipBlocks) :
    FirstAt (fun s => db.traces < s.traces) 0 (db.readsBeforeChange accountId height)
      (rollbackFromHeight accountId height webhookConfig now) db := by
  have hrolled := rolledBackBlocks_ne_nil height htips
  have haffected := affectedOutputs_ne_nil accountId height db
  have hcancel : ∀ ids, Stays (fun s => db.traces < s.traces)
      (cancelPendingTransactionsByIds ids .cancelled) := fun ids =>
    Stays.ite Stays.pure (update_staysMarked (fun _ => le_refl _))
  have hlast : ∀ events (f : List DisplayedTransaction → ReorgInformation),
      Stays (fun s => db.traces < s.traces) (do
        let reorganized ← clearRecords accountId height now
        triggerWebhooks accountId events webhookConfig now
        pure (f reorganized) : DbM ReorgInformation) := fun events f =>
    Stays.bind clearRecords_staysMarked (fun _ =>
      Stays.bind (triggerWebhooks_staysMarked _ _) (fun _ => Stays.pure))
  unfold Db.readsBeforeChange
  rw [rollbackFromHeight_eq]
  refine FirstAt.after (Reads.tryQuery htips) ?_
  -- the events of the recorded blocks, then those of the outputs
  refine FirstAt.choose (l := 0) (k := 0) (a := [])
    (fun h => logWalletEvents_firstChange (by simpa using hrolled.mp h) _) (fun h => ?_)
    (fun _ => ?_) (fun _ => Stays.bind Stays.query (fun _ =>
      Stays.bind (logWalletEvents_staysMarked _ _) (fun _ => Stays.bind (hcancel _) (fun _ =>
        Stays.bind (logWalletEvents_staysMarked _ _) (fun _ =>
          Stays.bind softDeleteInputs_staysMarked (fun _ =>
            Stays.bind softDeleteOutputs_staysMarked (fun _ => hlast _ _)))))))
  · rw [not_not.mp (mt hrolled.mpr h)]
    exact Reads.pure
  refine FirstAt.after Reads.query ?_
  refine FirstAt.choose (l := 0) (k := 0) (a := [])
    (fun h => logWalletEvents_firstChange (by simpa using haffected.mp h) _) (fun h => ?_)
    (fun houtputs => ?_) (fun _ => Stays.bind (hcancel _) (fun _ =>
      Stays.bind (logWalletEvents_staysMarked _ _) (fun _ =>
        Stays.bind softDeleteInputs_staysMarked (fun _ =>
          Stays.bind softDeleteOutputs_staysMarked (fun _ => hlast _ _)))))
  · rw [not_not.mp (mt haffected.mpr h)]
    exact Reads.pure
  -- no output is affected, so no request is cancelled
  rw [not_not.mp (mt haffected.mpr houtputs)]
  refine FirstAt.after (k := 0) (a := ()) Reads.pure ?_
  refine FirstAt.after (k := 0) (a := []) Reads.pure ?_
  -- an input whose output is found is reversed first, any other only deleted
  by_cases hrows : db.getInputsToDelete accountId height = []
  · rw [if_neg (not_not.mpr hrows)]
    refine FirstAt.choose (l := 1) (k := 2) (a := ()) (deletesInputs_firstChange hrows)
      (softDeleteInputs_reads hrows) (fun _ => ?_)
      (fun _ => Stays.bind softDeleteOutputs_staysMarked (fun _ => hlast _ _))
    refine FirstAt.after (softDeleteOutputs_reads houtputs) ?_
    -- no event was stored, so no webhook is sent
    refine FirstAt.bind clearRecords_firstAt
      (fun _ => Stays.bind (triggerWebhooks_staysMarked _ _) (fun _ => Stays.pure))
      (fun _ => ⟨0, _, Reads.bind (l := 0) (a := ()) ?_ Reads.pure⟩)
    cases webhookConfig <;> exact Reads.pure
  · rw [if_pos hrows]
    exact FirstAt.change (FirstChange.bind (softDeleteInputs_firstChange hrows)
      (fun _ => Stays.bind softDeleteOutputs_staysMarked (fun _ => hlast _ _)))

/-- A reorg check that fails leaves the database as it was. A rollback outside a transaction that
    fails does so if and only if it stops before its first change. -/
theorem failedRollback_unchanged_iff (getHeaderByHeight : HeaderSource) (accountId : AccountId)
    (height : Nat) (webhookConfig : Option WebhookTriggerConfig) (now : Timestamp) (db : Db)
    (budget : Option Nat) (e : WalletDbError) (c : Conn Db) :
    (handleReorgs getHeaderByHeight accountId webhookConfig now ⟨db, budget⟩ = .error e c →
      c.store = db) ∧
    (rollbackFromHeight accountId height webhookConfig now ⟨db, budget⟩ = .error e c →
      (c.store = db ↔ StopsBeforeChange db accountId height budget)) := by
  refine ⟨fun h => handleReorgs_error h, fun h => ?_⟩
  cases hread : db.getScannedTipBlocksByAccount accountId with
  | error e' =>
      -- the first statement fails
      have hnone : ¬∀ r ∈ db.scannedTipBlocks.rows, r.accountId = accountId → 0 ≤ r.height := by
        intro hall
        rw [getScannedTipBlocksByAccount_ok.mpr ⟨hall, rfl⟩] at hread
        cases hread
      simp only [not_forall, not_le] at hnone
      obtain ⟨r, hr, ha, hneg⟩ := hnone
      refine ⟨fun _ => Or.inl ⟨r, hr, ha, hneg⟩, fun _ => ?_⟩
      rcases bind_error.mp h with hfirst | ⟨tipBlocks, c₁, hfirst, -⟩
      · exact stmt_error hfirst
      · rw [(tryQuery_ok hfirst).1] at hread
        cases hread
  | ok tipBlocks =>
      have hnonneg := (getScannedTipBlocksByAccount_ok.mp hread).1
      have hreadable : ¬∃ b ∈ db.scannedTipBlocks.rows, b.accountId = accountId ∧ b.height < 0 := by
        rintro ⟨b, hb, ha, hlt⟩
        exact absurd (hnonneg b hb ha) (not_le_of_gt hlt)
      have hfirst := rollbackFromHeight_firstAt height webhookConfig now hread
      unfold StopsBeforeChange
      rw [or_iff_right hreadable]
      cases hreads : db.readsBeforeChange accountId height with
      | none =>
          rw [hreads] at hfirst
          obtain ⟨k, a, hk⟩ := hfirst
          exact ⟨fun _ => nofun, fun _ => hk.error h⟩
      | some k =>
          rw [hreads] at hfirst
          simpa using hfirst.2.error_iff (lt_irrefl _) h

/-- Account 1 receives an output at height 1 and spends it at height 2. -/
def receiveAndSpend : List LedgerAction :=
  let bp := BlockProcessor.withEventSender [(1, 7)] 3
  [.processBlock bp ⟨1, 101, [(500, { outputHash := 500, value := 10 }, 0)], [], 1000⟩ 1 1000,
    .processBlock bp ⟨2, 102, [], [500], 1120⟩ 1 1120]

/-- Its rollback from height 2 that fails at the first event changes nothing. -/
theorem failedRollback_unchanged_firstEvent :
    ∃ db e c, Transition.run (ledgerStep plainEnv) Db.empty receiveAndSpend = some db ∧
      rollbackFromHeight 1 2 none 1200 ⟨db, some 1⟩ = .error e c ∧ c.store = db := by
  obtain ⟨db, hrun, hq⟩ := Transition.exists_run_of_any (f := ledgerStep plainEnv) (s := Db.empty)
    (l := receiveAndSpend)
    (q := fun db => decide (db.readsBeforeChange 1 2 = some 1) &&
      (match rollbackFromHeight 1 2 none 1200 ⟨db, some 1⟩ with
        | .ok _ _ => false
        | .error _ _ => true)) (by decide +kernel)
  obtain ⟨hreads, hfails⟩ := Bool.and_eq_true_iff.mp hq
  have hreads := of_decide_eq_true hreads
  cases hrollback : rollbackFromHeight 1 2 none 1200 ⟨db, some 1⟩ with
  | ok info c => simp [hrollback] at hfails
  | error e c =>
      have hstops : StopsBeforeChange db 1 2 (some 1) := by
        refine Or.inr (fun k hk => ⟨1, rfl, ?_⟩)
        rw [hreads, Option.some.injEq] at hk
        omega
      exact ⟨db, e, c, hrun, hrollback,
        ((failedRollback_unchanged_iff (fun _ => .ok none) 1 2 none 1200 db (some 1) e c).2
          hrollback).mpr hstops⟩

/-- One that fails once the inputs are deleted leaves the account between two states: the debit is
    reversed and the spend gone, and block 2 is still recorded. -/
theorem failedRollback_inputsDeleted :
    ∃ db e c, Transition.run (ledgerStep plainEnv) Db.empty receiveAndSpend = some db ∧
      rollbackFromHeight 1 2 none 1200 ⟨db, some 8⟩ = .error e c ∧ c.store ≠ db ∧
      (∀ i ∈ c.store.inputs.rows, i.active = false) ∧
      (∃ b ∈ c.store.scannedTipBlocks.rows, b.height = 2) ∧
      ∃ b ∈ c.store.balanceChanges.rows, b.balanceDebit = 10 ∧ b.isReversed = true := by
  obtain ⟨db, hrun, hq⟩ := Transition.exists_run_of_any (f := ledgerStep plainEnv) (s := Db.empty)
    (l := receiveAndSpend)
    (q := fun db => decide (∃ i ∈ db.inputs.rows, i.active = true) &&
      (match rollbackFromHeight 1 2 none 1200 ⟨db, some 8⟩ with
        | .ok _ _ => false
        | .error _ c => decide ((∀ i ∈ c.store.inputs.rows, i.active = false) ∧
            (∃ b ∈ c.store.scannedTipBlocks.rows, b.height = 2) ∧
            ∃ b ∈ c.store.balanceChanges.rows, b.balanceDebit = 10 ∧ b.isReversed = true)))
    (by decide +kernel)
  obtain ⟨hspent, hfails⟩ := Bool.and_eq_true_iff.mp hq
  obtain ⟨i, hi, hactive⟩ := of_decide_eq_true hspent
  cases hrollback : rollbackFromHeight 1 2 none 1200 ⟨db, some 8⟩ with
  | ok info c => simp [hrollback] at hfails
  | error e c =>
      rw [hrollback] at hfails
      obtain ⟨hinputs, hrest⟩ := of_decide_eq_true hfails
      refine ⟨db, e, c, hrun, hrollback, fun heq => ?_, hinputs, hrest⟩
      have hdeleted := hinputs i (heq ▸ hi)
      rw [hactive] at hdeleted
      cases hdeleted

end MinotariWallet
