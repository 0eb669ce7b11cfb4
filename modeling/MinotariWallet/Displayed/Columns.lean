import MinotariWallet.Displayed.Payrefs
import MinotariWallet.Lib.FirstChange
import MinotariWallet.Transactions.Monitor

set_option autoImplicit false

/-! # The columns of a displayed transaction and its JSON

The queries read the columns of `displayed_transactions`, their results come from the JSON. Each
writer changes both, but not every column: the upsert leaves all but the status as they are. -/

namespace MinotariWallet

open Sql Exec Transition DisplayedTransactionProcessor

/-! ## The writers -/

inductive HistoryAction where
  | insertDisplayedTransaction (tx : DisplayedTransaction)
  /-- A stored transaction that a change at this height updates. -/
  | updateDisplayedTransactionMined (proc : DisplayedTransactionProcessor)
      (stored : DisplayedTransaction) (height : Nat) (effectiveDate : Timestamp)
  /-- The update of the confirmations, up to a fault. -/
  | updateDisplayedTransactionConfirmations (m : TransactionMonitor) (budget : Option Nat)
  | markDisplayedTransactionRejected (txId : TxId) (budget : Option Nat)
  | markDisplayedTransactionsReorganized (accountId : AccountId) (fromHeight : Nat)
      (budget : Option Nat)
  /-- Anything that leaves the displayed transactions alone. -/
  | others (db : Db)

/-- The database after one action, `none` when the action is not possible. -/
def historyStep (db : Db) : HistoryAction → Option Db
  | .insertDisplayedTransaction tx => some (db.insertDisplayedTransaction tx)
  | .updateDisplayedTransactionMined proc stored height effectiveDate =>
    if db.displayedTransactions.exists? (·.transaction == stored) then
      some (db.updateDisplayedTransactionMined (proc.updatedBy stored height effectiveDate))
    else none
  | .updateDisplayedTransactionConfirmations m budget =>
    some (after m.updateDisplayedTransactionConfirmations ⟨db, budget⟩).store
  | .markDisplayedTransactionRejected txId budget =>
    some (after (MinotariWallet.markDisplayedTransactionRejected txId) ⟨db, budget⟩).store
  | .markDisplayedTransactionsReorganized accountId fromHeight budget =>
    some (after (markDisplayedTransactionsReorganizedAndReturn accountId fromHeight)
      ⟨db, budget⟩).store
  | .others db' =>
    if db'.displayedTransactions.rows = db.displayedTransactions.rows then some db' else none

/-! ## Columns -/

/-- The columns that repeat a field of the JSON, without the status. -/
def DisplayedTransactionRow.columns (d : DisplayedTransactionRow) :
    TxId × AccountId × TransactionDirection × TransactionSource × Int × Int :=
  (d.id, d.accountId, d.direction, d.source, d.amount, d.blockHeight)

/-- The same columns as the transaction has them. -/
def DisplayedTransaction.columns (tx : DisplayedTransaction) :
    TxId × AccountId × TransactionDirection × TransactionSource × Int × Int :=
  (tx.id, tx.details.accountId, tx.direction, tx.source, asI64 tx.amount,
    asI64 tx.blockchain.blockHeight)

structure DisplayedTransactionRow.Agrees (d : DisplayedTransactionRow) : Prop where
  status : d.status = d.transaction.status
  columns : d.columns = d.transaction.columns

/-- The row once it is marked as reorganized. -/
def DisplayedTransactionRow.reorganized (d : DisplayedTransactionRow) : DisplayedTransactionRow :=
  { d with
    status := .reorganized
    transaction := { d.transaction with status := .reorganized } }

/-- The account has the transaction at or above the height. -/
def DisplayedTransaction.From (accountId : AccountId) (fromHeight : Nat)
    (tx : DisplayedTransaction) : Prop :=
  tx.details.accountId = accountId ∧ fromHeight ≤ tx.blockchain.blockHeight

instance (accountId : AccountId) (fromHeight : Nat) (tx : DisplayedTransaction) :
    Decidable (tx.From accountId fromHeight) :=
  inferInstanceAs (Decidable (_ ∧ _))

/-- Every row agrees with its JSON, and a reorg touches exactly the transactions that are stored at
    or above its height and returns those that it had not touched before. -/
structure ColumnsAgree (db : Db) : Prop where
  agrees : ∀ d ∈ db.displayedTransactions.rows, d.Agrees
  marks : ∀ accountId fromHeight, fromHeight < 2 ^ 63 → ∃ txs db',
    runOk (markDisplayedTransactionsReorganizedAndReturn accountId fromHeight) db =
        some (txs, db') ∧
      db'.displayedTransactions.rows = db.displayedTransactions.rows.map (fun d =>
        if d.transaction.From accountId fromHeight then d.reorganized else d) ∧
      txs = (db.displayedTransactions.rows.filter (fun d =>
        d.transaction.From accountId fromHeight ∧ d.transaction.status ≠ .reorganized)).map
          (·.reorganized.transaction)

/-- An insert meets no row of its id with other columns, and heights are below the range of the
    signed column. -/
def KeepsColumns (db : Db) : HistoryAction → Prop
  | .insertDisplayedTransaction tx =>
    tx.blockchain.blockHeight < 2 ^ 63 ∧
      ∀ d ∈ db.displayedTransactions.rows, d.id = tx.id → d.columns = tx.columns
  | .updateDisplayedTransactionMined _ _ height _ => height < 2 ^ 63
  | _ => True

/-! ## What each writer does -/

/-- Every row agrees with its JSON, which has a height that SQL compares as it is. -/
def AllAgree (db : Db) : Prop :=
  ∀ d ∈ db.displayedTransactions.rows,
    d.Agrees ∧ d.transaction.blockchain.blockHeight < 2 ^ 63

/-- The rows of these transactions have their columns. -/
def KnownColumns (txs : List DisplayedTransaction) (db : Db) : Prop :=
  ∀ tx ∈ txs, tx.blockchain.blockHeight < 2 ^ 63 ∧
    ∀ d ∈ db.displayedTransactions.rows, d.id = tx.id → d.columns = tx.columns

variable {db : Db} {tx : DisplayedTransaction} {txs : List DisplayedTransaction}

theorem AllAgree.id_eq (h : AllAgree db) {d : DisplayedTransactionRow}
    (hd : d ∈ db.displayedTransactions.rows) : d.id = d.transaction.id :=
  congrArg (·.1) (h d hd).1.columns

/-- The transactions of the rows are known. -/
theorem AllAgree.known (h : AllAgree db)
    (hmem : ∀ tx ∈ txs, ∃ d ∈ db.displayedTransactions.rows, d.transaction = tx) :
    KnownColumns txs db := by
  intro tx htx
  obtain ⟨d, hd, rfl⟩ := hmem tx htx
  refine ⟨(h d hd).2, fun d' hd' hid => ?_⟩
  have heq : d' = d := db.displayedTransactions.eq_of_key_eq hd' hd (hid.trans (h.id_eq hd).symm)
  rw [heq]
  exact (h d hd).1.columns

/-- The `UPDATE` of the status and the JSON. -/
theorem setStatus_agree {id : TxId} (h : AllAgree db) (hknown : KnownColumns txs db)
    {stored : DisplayedTransaction} (hstored : stored ∈ txs) (hid : id = stored.id)
    (hcolumns : tx.columns = stored.columns)
    (hheight : tx.blockchain.blockHeight = stored.blockchain.blockHeight) :
    AllAgree (db.setDisplayedTransactionStatus id tx) ∧
      KnownColumns txs (db.setDisplayedTransactionStatus id tx) := by
  obtain ⟨hsmall, hrow⟩ := hknown stored hstored
  constructor
  · intro d hd
    obtain ⟨d₀, hd₀, rfl⟩ := (Table.mem_updateWhere (by intro _; rfl)).mp hd
    by_cases hd₀id : (d₀.id == id) = true
    · rw [if_pos hd₀id]
      refine ⟨⟨rfl, ?_⟩, by simpa [hheight] using hsmall⟩
      exact (hrow d₀ hd₀ ((beq_iff_eq.mp hd₀id).trans hid)).trans hcolumns.symm
    · rw [if_neg hd₀id]
      exact h d₀ hd₀
  · intro tx' htx'
    refine ⟨(hknown tx' htx').1, fun d hd hdid => ?_⟩
    obtain ⟨d₀, hd₀, rfl⟩ := (Table.mem_updateWhere (by intro _; rfl)).mp hd
    by_cases hd₀id : (d₀.id == id) = true
    · rw [if_pos hd₀id] at hdid ⊢
      exact (hknown tx' htx').2 d₀ hd₀ hdid
    · rw [if_neg hd₀id] at hdid ⊢
      exact (hknown tx' htx').2 d₀ hd₀ hdid

/-- An insert keeps the agreement if and only if it meets no row of its id with other columns. -/
theorem insertDisplayedTransaction_agree_iff
    (h : ∀ d ∈ db.displayedTransactions.rows, d.Agrees) :
    (∀ d ∈ (db.insertDisplayedTransaction tx).displayedTransactions.rows, d.Agrees) ↔
      ∀ d ∈ db.displayedTransactions.rows, d.id = tx.id → d.columns = tx.columns := by
  unfold Db.insertDisplayedTransaction
  split
  · next table hinsert =>
      refine ⟨fun _ d hd hid => ?_, fun _ d hd => ?_⟩
      · exact absurd hid ((Table.insert?_some hinsert).2 d hd)
      · rcases (Table.mem_insert? hinsert).mp hd with hd | rfl
        · exact h d hd
        · exact ⟨rfl, rfl⟩
  · refine ⟨fun hall d hd hid => ?_, fun hrow d hd => ?_⟩
    · have hnew := (hall _ ((Table.mem_updateWhere (by intro _; rfl)).mpr ⟨d, hd, rfl⟩)).columns
      rw [if_pos (by simp [hid])] at hnew
      exact hnew
    · obtain ⟨d₀, hd₀, rfl⟩ := (Table.mem_updateWhere (by intro _; rfl)).mp hd
      by_cases hid : (d₀.id == tx.id) = true
      · rw [if_pos hid]
        exact ⟨rfl, hrow d₀ hd₀ (beq_iff_eq.mp hid)⟩
      · rw [if_neg hid]
        exact h d₀ hd₀

theorem insertDisplayedTransaction_allAgree (h : AllAgree db)
    (hkeeps : KeepsColumns db (.insertDisplayedTransaction tx)) :
    AllAgree (db.insertDisplayedTransaction tx) := by
  obtain ⟨hsmall, hrow⟩ := hkeeps
  have hagrees := (insertDisplayedTransaction_agree_iff (fun d hd => (h d hd).1)).mpr hrow
  refine fun d hd => ⟨hagrees d hd, ?_⟩
  unfold Db.insertDisplayedTransaction at hd
  split at hd
  · next table hinsert =>
      rcases (Table.mem_insert? hinsert).mp hd with hd | rfl
      · exact (h d hd).2
      · exact hsmall
  · obtain ⟨d₀, hd₀, rfl⟩ := (Table.mem_updateWhere (by intro _; rfl)).mp hd
    by_cases hid : (d₀.id == tx.id) = true
    · rw [if_pos hid]
      exact hsmall
    · rw [if_neg hid]
      exact (h d₀ hd₀).2

theorem updateDisplayedTransactionMined_allAgree {proc : DisplayedTransactionProcessor}
    {stored : DisplayedTransaction} {height : Nat} {effectiveDate : Timestamp} (h : AllAgree db)
    (hstored : ∃ d ∈ db.displayedTransactions.rows, d.transaction = stored)
    (hsmall : height < 2 ^ 63) :
    AllAgree (db.updateDisplayedTransactionMined
      (proc.updatedBy stored height effectiveDate)) := by
  obtain ⟨d₁, hd₁, rfl⟩ := hstored
  intro d hd
  obtain ⟨d₀, hd₀, rfl⟩ := (Table.mem_updateWhere (by intro _; rfl)).mp hd
  by_cases hid : (d₀.id == (proc.updatedBy d₁.transaction height effectiveDate).id) = true
  · rw [if_pos hid]
    -- the row that is updated is the one that holds the stored transaction
    have heq : d₀ = d₁ := db.displayedTransactions.eq_of_key_eq hd₀ hd₁
      ((beq_iff_eq.mp hid).trans (h.id_eq hd₁).symm)
    have hcolumns := (h d₁ hd₁).1.columns
    rw [← heq] at hcolumns ⊢
    simp only [DisplayedTransactionRow.columns, DisplayedTransaction.columns,
      Prod.mk.injEq] at hcolumns
    refine ⟨⟨rfl, ?_⟩, hsmall⟩
    simp only [DisplayedTransactionRow.columns, DisplayedTransaction.columns,
      DisplayedTransactionProcessor.updatedBy, Prod.mk.injEq, and_true]
    exact ⟨hcolumns.1, hcolumns.2.1, hcolumns.2.2.1, hcolumns.2.2.2.1, hcolumns.2.2.2.2.1⟩
  · rw [if_neg hid]
    exact h d₀ hd₀

theorem updateDisplayedTransactionConfirmations_allAgree {m : TransactionMonitor} {c : Conn Db}
    (h : AllAgree c.store) :
    AllAgree (after m.updateDisplayedTransactionConfirmations c).store := by
  refine after_query_bind h (fun b => ?_)
  generalize htxs : c.store.getDisplayedTransactionsNeedingConfirmationUpdate m.accountId = txs
  have hknown : KnownColumns txs c.store := by
    refine h.known (fun tx htx => ?_)
    obtain ⟨d, hd, rfl⟩ := List.mem_map.mp (htxs ▸ htx)
    exact ⟨d, (List.mem_filter.mp hd).1, rfl⟩
  refine (Stays.foldlM_mem (I := fun db => AllAgree db ∧ KnownColumns txs db)
    (fun updated tx htx => Stays.ite Stays.pure (Stays.bind (Stays.update (fun db hdb => ?_))
      (fun _ => Stays.pure))) ⟨c.store, b⟩ ⟨h, hknown⟩).1
  exact setStatus_agree hdb.1 hdb.2 htx rfl rfl rfl

theorem markDisplayedTransactionsReorganized_allAgree {accountId : AccountId} {fromHeight : Nat}
    {c : Conn Db} (h : AllAgree c.store) :
    AllAgree (after (markDisplayedTransactionsReorganizedAndReturn accountId fromHeight)
      c).store := by
  refine after_query_bind h (fun b => ?_)
  generalize hrows : c.store.displayedTransactions.select (fun d =>
    d.fromHeight accountId fromHeight && d.status != .reorganized) = rows
  have hmem : ∀ row ∈ rows, row ∈ c.store.displayedTransactions.rows := fun row hrow =>
    (List.mem_filter.mp (hrows ▸ hrow)).1
  have hknown : KnownColumns (rows.map (·.transaction)) c.store := by
    refine h.known (fun tx htx => ?_)
    obtain ⟨row, hrow, rfl⟩ := List.mem_map.mp htx
    exact ⟨row, hmem row hrow, rfl⟩
  refine (Stays.foldlM_mem (I := fun db => AllAgree db ∧
    KnownColumns (rows.map (·.transaction)) db) (fun updated row hrow =>
      Stays.bind (Stays.update (fun db hdb => ?_)) (fun _ => Stays.pure)) ⟨c.store, b⟩
    ⟨h, hknown⟩).1
  exact setStatus_agree hdb.1 hdb.2 (List.mem_map_of_mem hrow) (h.id_eq (hmem row hrow)) rfl rfl

theorem markDisplayedTransactionRejected_allAgree {txId : TxId} {c : Conn Db}
    (h : AllAgree c.store) :
    AllAgree (after (markDisplayedTransactionRejected txId) c).store := by
  refine after_query_bind h (fun b => ?_)
  cases hget : c.store.displayedTransactions.get? txId with
  | none => exact h
  | some row =>
      obtain ⟨hrow, hid⟩ := Table.get?_eq_some.mp hget
      have hknown : KnownColumns [row.transaction] c.store :=
        h.known (fun tx htx => ⟨row, hrow, (List.mem_singleton.mp htx).symm⟩)
      refine (Stays.bind (I := fun db => AllAgree db ∧ KnownColumns [row.transaction] db)
        (Stays.update (fun db hdb => ?_)) (fun _ => Stays.pure) ⟨c.store, b⟩ ⟨h, hknown⟩).1
      exact setStatus_agree hdb.1 hdb.2 (List.mem_singleton.mpr rfl)
        (hid.symm.trans (h.id_eq hrow)) rfl rfl

/-- Every writer keeps the agreement. -/
theorem historyStep_allAgree (db : Db) (a : HistoryAction) (db' : Db) (h : AllAgree db)
    (hkeeps : KeepsColumns db a) (hstep : historyStep db a = some db') : AllAgree db' := by
  cases a with
  | insertDisplayedTransaction tx =>
      cases hstep
      exact insertDisplayedTransaction_allAgree h hkeeps
  | updateDisplayedTransactionMined proc stored height effectiveDate =>
      simp only [historyStep, Option.ite_none_right_eq_some, Option.some.injEq] at hstep
      obtain ⟨hexists, rfl⟩ := hstep
      obtain ⟨d, hd, heq⟩ := Table.exists?_eq_true.mp hexists
      exact updateDisplayedTransactionMined_allAgree h ⟨d, hd, beq_iff_eq.mp heq⟩ hkeeps
  | updateDisplayedTransactionConfirmations m budget =>
      cases hstep
      exact updateDisplayedTransactionConfirmations_allAgree h
  | markDisplayedTransactionRejected txId budget =>
      cases hstep
      exact markDisplayedTransactionRejected_allAgree h
  | markDisplayedTransactionsReorganized accountId fromHeight budget =>
      cases hstep
      exact markDisplayedTransactionsReorganized_allAgree h
  | others db₁ =>
      simp only [historyStep, Option.ite_none_right_eq_some, Option.some.injEq] at hstep
      obtain ⟨hrows, rfl⟩ := hstep
      exact fun d hd => h d (hrows ▸ hd)

/-! ## What a reorg touches -/

/-- Rows marked one by one. -/
theorem foldl_reorganized {rows : List DisplayedTransactionRow}
    (hnodup : (rows.map (·.id)).Nodup)
    (hmem : ∀ row ∈ rows, row ∈ db.displayedTransactions.rows) :
    (rows.foldl (fun db row => db.setDisplayedTransactionStatus row.id row.reorganized.transaction)
        db).displayedTransactions.rows =
      db.displayedTransactions.rows.map (fun d => if d ∈ rows then d.reorganized else d) := by
  induction rows generalizing db with
  | nil => simp
  | cons row rows ih =>
      rw [List.map_cons, List.nodup_cons] at hnodup
      obtain ⟨hfresh, hnodup⟩ := hnodup
      have hrow : ∀ d ∈ db.displayedTransactions.rows, d.id = row.id → d = row := fun d hd hid =>
        db.displayedTransactions.eq_of_key_eq hd (hmem row List.mem_cons_self) hid
      have hnot : ∀ d ∈ rows, d.id ≠ row.id := fun d hd hid =>
        hfresh (hid ▸ List.mem_map_of_mem hd)
      rw [List.foldl_cons, ih hnodup]
      · rw [Db.setDisplayedTransactionStatus, Table.updateWhere, List.map_map]
        refine List.map_congr_left (fun d hd => ?_)
        by_cases hid : d.id = row.id
        · have hd' := hrow d hd hid
          subst hd'
          have hout : d.reorganized ∉ rows := fun hin => hnot _ hin rfl
          simp only [Function.comp_apply, beq_self_eq_true, if_true, List.mem_cons, true_or]
          exact if_neg hout
        · have hne : d ≠ row := fun heq => hid (heq ▸ rfl)
          simp [hid, hne]
      · intro d hd
        refine (Table.mem_updateWhere (by intro _; rfl)).mpr
          ⟨d, hmem d (List.mem_cons_of_mem row hd), ?_⟩
        simp [hnot d hd]

/-- Where the rows agree, the columns select the transactions at or above the height. -/
theorem fromHeight_iff (accountId : AccountId) {fromHeight : Nat} {d : DisplayedTransactionRow}
    (hagrees : d.Agrees) (hd : d.transaction.blockchain.blockHeight < 2 ^ 63)
    (hfrom : fromHeight < 2 ^ 63) :
    d.fromHeight accountId fromHeight = true ↔ d.transaction.From accountId fromHeight := by
  have hcolumns := hagrees.columns
  simp only [DisplayedTransactionRow.columns, DisplayedTransaction.columns,
    Prod.mk.injEq] at hcolumns
  obtain ⟨-, hacc, -, -, -, hheight⟩ := hcolumns
  simp only [DisplayedTransactionRow.fromHeight, DisplayedTransaction.From, Bool.and_eq_true,
    beq_iff_eq, decide_eq_true_eq, hacc, hheight]
  rw [asI64_of_lt hd, asI64_of_lt hfrom, Int.ofNat_le]

theorem AllAgree.columnsAgree (h : AllAgree db) : ColumnsAgree db where
  agrees d hd := (h d hd).1
  marks accountId fromHeight hfrom := by
    have hrun := @foldlM_update WalletDbError _ _ _ _
      (fun (row : DisplayedTransactionRow) (db : Db) =>
        db.setDisplayedTransactionStatus row.id row.reorganized.transaction)
      (·.reorganized.transaction) (db.displayedTransactions.select (fun d =>
        d.fromHeight accountId fromHeight && d.status != .reorganized)) [] db
    refine ⟨_, _, runOk_eq_some.mpr ⟨_, hrun, rfl⟩, ?_, ?_⟩
    · rw [foldl_reorganized (db.displayedTransactions.nodup_select _)
        (fun row hrow => (List.mem_filter.mp hrow).1)]
      refine List.map_congr_left (fun d hd => ?_)
      have hiff := fromHeight_iff accountId (h d hd).1 (h d hd).2 hfrom
      simp only [Table.select, List.mem_filter, hd, true_and, Bool.and_eq_true, hiff, bne_iff_ne]
      by_cases hstatus : d.status = .reorganized
      · -- a row that is marked already stays as it is
        have htx : d.transaction.status = .reorganized := (h d hd).1.status.symm.trans hstatus
        have hsame : d.reorganized = d := by
          obtain ⟨_, _, _, _, _, _, _, _, tx, _⟩ := d
          cases tx
          cases hstatus
          cases htx
          rfl
        simp [hsame]
      · simp [hstatus]
    · rw [List.nil_append]
      refine congrArg (List.map _) (List.filter_congr (fun d hd => ?_))
      have hiff := fromHeight_iff accountId (h d hd).1 (h d hd).2 hfrom
      rw [Bool.eq_iff_iff, Bool.and_eq_true, hiff, bne_iff_ne, (h d hd).1.status,
        decide_eq_true_eq]

/-! ## Blocks and rollbacks are runs of these writers -/

/-- The rows are stored under the ids of their transactions. -/
def IdsAgree (db : Db) : Prop := ∀ d ∈ db.displayedTransactions.rows, d.id = d.transaction.id

/-- The update of a transaction that a row holds. -/
def IsUpdate (proc : DisplayedTransactionProcessor) (db : Db) (tx : DisplayedTransaction) : Prop :=
  ∃ d ∈ db.displayedTransactions.rows, ∃ height effectiveDate,
    tx = proc.updatedBy d.transaction height effectiveDate

theorem mem_currentDisplayTransactions {accountId : AccountId} {height : Nat}
    (h : tx ∈ db.currentDisplayTransactions accountId height) :
    ∃ d ∈ db.displayedTransactions.rows, d.transaction = tx := by
  have hordered : ∀ p, tx ∈ db.orderedDisplayedTransactions p →
      ∃ d ∈ db.displayedTransactions.rows, d.transaction = tx := by
    intro p hp
    obtain ⟨d, hd, rfl⟩ := List.mem_map.mp hp
    have hselect := (perm_orderByDesc _ _).mem_iff.mp ((perm_orderByDesc _ _).mem_iff.mp hd)
    exact ⟨d, (List.mem_filter.mp hselect).1, rfl⟩
  rcases List.mem_append.mp h with h | h
  · exact hordered _ h
  · exact hordered _ (List.mem_filter.mp h).1

theorem isUpdate_of_mem_updates {proc : DisplayedTransactionProcessor}
    {acc : BlockEventAccumulator} {accountId : AccountId} {height : Nat}
    (h : tx ∈ updates proc acc (db.currentDisplayTransactions accountId height)) :
    IsUpdate proc db tx := by
  rcases List.mem_append.mp h with h | h
  · obtain ⟨c, -, hc⟩ := List.mem_filterMap.mp h
    obtain ⟨stored, hfind, rfl⟩ := Option.map_eq_some_iff.mp hc
    obtain ⟨d, hd, rfl⟩ := mem_currentDisplayTransactions (List.mem_of_find?_eq_some hfind)
    exact ⟨d, hd, _, _, rfl⟩
  · obtain ⟨c, -, hc⟩ := List.mem_filterMap.mp h
    obtain ⟨stored, hfind, rfl⟩ := Option.map_eq_some_iff.mp hc
    obtain ⟨d, hd, rfl⟩ := mem_currentDisplayTransactions (List.mem_of_find?_eq_some hfind)
    exact ⟨d, hd, _, _, rfl⟩

/-- Updates of different rows, one after the other. -/
theorem updates_history (proc : DisplayedTransactionProcessor) {updated : List DisplayedTransaction}
    (hids : IdsAgree db) (hnodup : (updated.map (·.id)).Nodup)
    (hupdates : ∀ tx ∈ updated, IsUpdate proc db tx) :
    ∃ actions, run historyStep db actions =
      some (updated.foldl Db.updateDisplayedTransactionMined db) := by
  induction updated generalizing db with
  | nil => exact ⟨[], rfl⟩
  | cons tx updated ih =>
      rw [List.map_cons, List.nodup_cons] at hnodup
      obtain ⟨hfresh, hnodup⟩ := hnodup
      obtain ⟨d, hd, height, effectiveDate, rfl⟩ := hupdates tx List.mem_cons_self
      have hstep : historyStep db
          (.updateDisplayedTransactionMined proc d.transaction height effectiveDate) =
          some (db.updateDisplayedTransactionMined
            (proc.updatedBy d.transaction height effectiveDate)) :=
        if_pos (Table.exists?_eq_true.mpr ⟨d, hd, by simp⟩)
      let db₁ := db.updateDisplayedTransactionMined
        (proc.updatedBy d.transaction height effectiveDate)
      have hids₁ : IdsAgree db₁ := by
        intro d' hd'
        obtain ⟨d₀, hd₀, rfl⟩ := (Table.mem_updateWhere (by intro _; rfl)).mp hd'
        by_cases hid : (d₀.id == (proc.updatedBy d.transaction height effectiveDate).id) = true
        · rw [if_pos hid]
          exact beq_iff_eq.mp hid
        · rw [if_neg hid]
          exact hids d₀ hd₀
      -- the rows of the other updates are as they were
      have hupdates₁ : ∀ tx ∈ updated, IsUpdate proc db₁ tx := by
        intro tx' htx'
        obtain ⟨d', hd', height', effectiveDate', rfl⟩ :=
          hupdates tx' (List.mem_cons_of_mem _ htx')
        refine ⟨d', (Table.mem_updateWhere (by intro _; rfl)).mpr ⟨d', hd', ?_⟩, height',
          effectiveDate', rfl⟩
        have hother : d'.transaction.id ≠ d.transaction.id := fun heq =>
          hfresh (List.mem_map.mpr ⟨_, htx', heq⟩)
        refine if_neg (fun hid => hother ?_)
        exact (hids d' hd').symm.trans (beq_iff_eq.mp hid)
      obtain ⟨actions, hrun⟩ := ih hids₁ hnodup hupdates₁
      exact ⟨_ :: actions, run_cons.mpr ⟨_, hstep, hrun⟩⟩

theorem inserts_history (new : List DisplayedTransaction) (db : Db) :
    run historyStep db (new.map .insertDisplayedTransaction) =
      some (new.foldl Db.insertDisplayedTransaction db) := by
  induction new generalizing db with
  | nil => rfl
  | cons tx new ih => exact run_cons.mpr ⟨_, rfl, ih _⟩

/-- A processed block is a run of the writers. -/
theorem processBlock_history {ext : Externals} {std : StdOrder} {bp : BlockProcessor}
    {now : Timestamp} {block : BlockScanResult} {accountId : AccountId} {c c' : Conn Db}
    {outcome : BlockOutcome} (hids : IdsAgree c.store)
    (h : bp.processBlock (ext.scanEnv std) now block accountId c = .ok outcome c') :
    ∃ actions, run historyStep c.store actions = some c'.store := by
  obtain ⟨key, acc, new, -, -, hwritten, -⟩ := processBlock_displayed h
  obtain ⟨actions, hupdates⟩ := updates_history
    ⟨block.height, bp.requiredConfirmations, key⟩ hids
    (((std.values_perm _).map _).nodup_iff.mpr (nodup_foldl_insertUpdated _))
    (fun tx htx => isUpdate_of_mem_updates
      (mem_foldl_insertUpdated.mp ((std.values_perm _).mem_iff.mp htx)).mem)
  refine ⟨actions ++ (new.map .insertDisplayedTransaction ++ [.others c'.store]), ?_⟩
  refine run_append.mpr ⟨_, hupdates, run_append.mpr ⟨_, inserts_history new _, ?_⟩⟩
  exact run_cons.mpr ⟨c'.store, if_pos (congrArg Table.rows hwritten), rfl⟩

/-- A rollback is a run of the writers. -/
theorem rollbackFromHeight_history {accountId : AccountId} {height : Nat}
    {webhookConfig : Option WebhookTriggerConfig} {now : Timestamp} {c c' : Conn Db}
    {info : ReorgInformation}
    (h : rollbackFromHeight accountId height webhookConfig now c = .ok info c') :
    ∃ actions, run historyStep c.store actions = some c'.store := by
  obtain ⟨c₁, c₂, txs, hbefore, hmark, hafter⟩ := rollbackFromHeight_marks
    (w := fun displayedTransactions _ => displayedTransactions) (fun _ _ _ => rfl) h
  have hstep : historyStep c₁.store
      (.markDisplayedTransactionsReorganized accountId height c₁.budget) = some c₂.store := by
    rw [historyStep, after, hmark]
  refine ⟨[.others c₁.store, .markDisplayedTransactionsReorganized accountId height c₁.budget,
    .others c'.store], ?_⟩
  refine run_cons.mpr ⟨c₁.store, if_pos (congrArg Table.rows hbefore), ?_⟩
  refine run_cons.mpr ⟨c₂.store, hstep, run_cons.mpr ⟨c'.store, ?_, rfl⟩⟩
  exact if_pos (congrArg Table.rows hafter)

/-- In a run in which no insert meets a row of its id with other columns, the columns of every row
    agree with its JSON. -/
theorem columnsAgree_of_run (actions : List HistoryAction)
    (hkeeps : Along historyStep KeepsColumns .empty actions) :
    Always historyStep ColumnsAgree .empty actions :=
  always_of_along historyStep_allAgree (fun _ h => h.columnsAgree)
    (fun d hd => by cases hd) hkeeps

instance (db : Db) : DecidablePred (KeepsColumns db)
  | .insertDisplayedTransaction _ => inferInstanceAs (Decidable (_ ∧ _))
  | .updateDisplayedTransactionMined _ _ height _ => inferInstanceAs (Decidable (height < _))
  | .updateDisplayedTransactionConfirmations _ _ => .isTrue trivial
  | .markDisplayedTransactionRejected _ _ => .isTrue trivial
  | .markDisplayedTransactionsReorganized _ _ _ => .isTrue trivial
  | .others _ => .isTrue trivial

/-- A transaction that is recorded, mined, confirmed and reorganized. -/
def transferHistory : List HistoryAction := [
  .insertDisplayedTransaction storedTransfer,
  .updateDisplayedTransactionMined ⟨10, 3, 7⟩ storedTransfer 10 1000,
  .updateDisplayedTransactionConfirmations ⟨1, 12, 3, none⟩ none,
  .markDisplayedTransactionsReorganized 1 10 none]

theorem columnsAgree_transferHistory : Always historyStep ColumnsAgree .empty transferHistory :=
  columnsAgree_of_run transferHistory (by decide +kernel)

/-- An output at height 20, a rollback, and the same output at height 25: the databases after the
    rollback and in the end. -/
def minedLater (std : StdOrder) : Option (Db × Db) := do
  let env := plainEnv.toExternals.scanEnv std
  let block (height : Nat) (hash : FixedHash) : BlockScanResult :=
    ⟨height, hash, [(500, { outputHash := 500, value := 100 }, 0)], [], 1000⟩
  let (_, received) ← runOk (oneAccount.processBlock env 0 (block 20 120) 1) .empty
  let (_, rolledBack) ← runOk (rollbackFromHeight 1 20 none 1050) received
  let (_, minedAgain) ← runOk (oneAccount.processBlock env 0 (block 25 225) 1) rolledBack
  pure (rolledBack, minedAgain)

/-- The row of a transaction that is mined at a greater height keeps the old one in its column. -/
theorem minedLater_columnsDisagree :
    ¬∀ actions, Always historyStep ColumnsAgree .empty actions := by
  intro hall
  have hrun : (minedLater .stable).any (fun (rolledBack, minedAgain) =>
      rolledBack.displayedTransactions.rows.all (fun d => d.id == d.transaction.id) &&
      minedAgain.displayedTransactions.rows.any (fun d =>
        d.blockHeight == 20 && d.transaction.blockchain.blockHeight == 25)) = true := by
    decide +kernel
  obtain ⟨⟨rolledBack, minedAgain⟩, hsome, hcheck⟩ := (Option.any_eq_true _ _).mp hrun
  simp only [Bool.and_eq_true, List.all_eq_true, List.any_eq_true, beq_iff_eq] at hcheck
  obtain ⟨hids, d, hd, hcolumn, hjson⟩ := hcheck
  simp only [minedLater, Option.bind_eq_bind, Option.bind_eq_some_iff, Option.pure_def,
    Option.some.injEq, Prod.exists, Prod.mk.injEq] at hsome
  obtain ⟨_, received, hreceived, _, _, hrolledBack, _, _, hminedAgain, rfl, rfl⟩ := hsome
  obtain ⟨c₁, hfirst, rfl⟩ := runOk_eq_some.mp hreceived
  obtain ⟨c₂, hrollback, rfl⟩ := runOk_eq_some.mp hrolledBack
  obtain ⟨c₃, hagain, rfl⟩ := runOk_eq_some.mp hminedAgain
  -- the blocks and the rollback are runs of the writers
  obtain ⟨first, hfirst⟩ := processBlock_history (by intro d hd; cases hd) hfirst
  obtain ⟨rollback, hrollback⟩ := rollbackFromHeight_history hrollback
  obtain ⟨again, hagain⟩ := processBlock_history (c := ⟨c₂.store, none⟩) hids hagain
  have hactions : run historyStep .empty (first ++ (rollback ++ again)) = some c₃.store :=
    run_append.mpr ⟨c₁.store, hfirst, run_append.mpr ⟨c₂.store, hrollback, hagain⟩⟩
  have hcolumns := (((hall _).final hactions).agrees d hd).columns
  simp only [DisplayedTransactionRow.columns, DisplayedTransaction.columns, hcolumn, hjson,
    Prod.mk.injEq] at hcolumns
  exact absurd hcolumns.2.2.2.2.2 (by decide)

end MinotariWallet
