import MinotariWallet.Transactions.Coherent
import MinotariWallet.Transactions.Records

set_option autoImplicit false

/-! # Payment references of completed transactions

`api/accounts/transactions.rs` looks up a payment reference among the completed transactions first,
and then in `payref_history`, where a rollback saves what it clears. So a reference goes on to lead
to its transaction through any number of rollbacks, unless a confirmation overwrites it. -/

namespace MinotariWallet

open Sql Exec

namespace Db

def getCompletedTransactionByPayref (db : Db) (accountId : AccountId) (payref : PaymentReference) :
    Option CompletedTransactionRow :=
  db.completedTransactions.find? (fun c => c.accountId == accountId && c.sentPayref == some payref)

def getCompletedTransactionById (db : Db) (txId : TxId) : Option CompletedTransactionRow :=
  db.completedTransactions.get? txId

/-- `get_transaction_id_by_historical_payref`: the row saved last; rows of one second are not ordered
    by the source, here they are in the order of their ids. -/
def getTransactionIdByHistoricalPayref (db : Db) (accountId : AccountId)
    (payref : PaymentReference) : Option TxId :=
  ((orderByDesc (·.createdAt) (db.payrefHistory.select (fun h =>
    h.accountId == accountId && h.oldPayref == payref))).head?).map (·.transactionId)

/-- `api_get_completed_transaction_by_payref` for an account that exists; `none` is its error
    `NotFound`. -/
def apiGetCompletedTransactionByPayref (db : Db) (accountId : AccountId)
    (payref : PaymentReference) : Option CompletedTransactionRow :=
  match db.getCompletedTransactionByPayref accountId payref with
  | some tx => some tx
  | none => (db.getTransactionIdByHistoricalPayref accountId payref).bind
      db.getCompletedTransactionById

end Db

/-- The reference is in the row of the transaction, or saved for it. -/
def KnowsPayref (accountId : AccountId) (payref : PaymentReference) (txId : TxId)
    (completed : Table CompletedTransactionRow) (history : AutoTable PayrefHistoryRow) : Prop :=
  (∃ c ∈ completed.rows, c.id = txId ∧ c.accountId = accountId ∧ c.sentPayref = some payref) ∨
    ∃ h ∈ history.rows, h.transactionId = txId ∧ h.accountId = accountId ∧ h.oldPayref = payref

def Db.KnowsPayref (db : Db) (accountId : AccountId) (payref : PaymentReference) (txId : TxId) :
    Prop :=
  MinotariWallet.KnowsPayref accountId payref txId db.completedTransactions db.payrefHistory

section Lookup

variable {db : Db} {accountId : AccountId} {payref : PaymentReference} {txId : TxId}

theorem knowsPayref_of_live {c : CompletedTransactionRow} (hc : c ∈ db.completedTransactions.rows)
    (hacc : c.accountId = accountId) (hpayref : c.sentPayref = some payref) :
    db.KnowsPayref accountId payref c.id :=
  Or.inl ⟨c, hc, rfl, hacc, hpayref⟩

/-- What the history table answers was saved. -/
theorem getTransactionIdByHistoricalPayref_some
    (h : db.getTransactionIdByHistoricalPayref accountId payref = some txId) :
    db.KnowsPayref accountId payref txId := by
  obtain ⟨row, hhead, rfl⟩ := Option.map_eq_some_iff.mp h
  have hmem := List.mem_of_mem_head? hhead
  rw [mem_orderByDesc] at hmem
  obtain ⟨hrow, hp⟩ := Table.mem_select.mp hmem
  simp only [Bool.and_eq_true, beq_iff_eq] at hp
  exact Or.inr ⟨row, hrow, rfl, hp.1, hp.2⟩

/-- A reference that is known for one transaction only leads to it. -/
theorem lookup_of_known (hknown : db.KnowsPayref accountId payref txId)
    (honly : ∀ id, db.KnowsPayref accountId payref id → id = txId)
    (hexists : ∃ c ∈ db.completedTransactions.rows, c.id = txId) :
    ∃ c, db.apiGetCompletedTransactionByPayref accountId payref = some c ∧ c.id = txId := by
  unfold Db.apiGetCompletedTransactionByPayref
  cases hlive : db.getCompletedTransactionByPayref accountId payref with
  | some c =>
      obtain ⟨hc, hp⟩ := Table.find?_some hlive
      simp only [Bool.and_eq_true, beq_iff_eq] at hp
      exact ⟨c, rfl, honly c.id (knowsPayref_of_live hc hp.1 hp.2)⟩
  | none =>
      rcases hknown with ⟨c, hc, -, hacc, hpayref⟩ | ⟨row, hrow, hid, hacc, hpayref⟩
      · have hnot := List.find?_eq_none.mp hlive c hc
        simp [hacc, hpayref] at hnot
      · obtain ⟨c, hc, hcid⟩ := hexists
        have hmem : row ∈ orderByDesc (·.createdAt) (db.payrefHistory.select (fun h =>
            h.accountId == accountId && h.oldPayref == payref)) := by
          rw [mem_orderByDesc]
          exact Table.mem_select.mpr ⟨hrow, by simp [hacc, hpayref]⟩
        cases hhistory : db.getTransactionIdByHistoricalPayref accountId payref with
        | none =>
            rw [Db.getTransactionIdByHistoricalPayref, Option.map_eq_none_iff,
              List.head?_eq_none_iff] at hhistory
            rw [hhistory] at hmem
            cases hmem
        | some id =>
            obtain rfl := honly id (getTransactionIdByHistoricalPayref_some hhistory)
            have hget : db.completedTransactions.get? c.id = some c :=
              Table.get?_eq_some.mpr ⟨hc, rfl⟩
            exact ⟨c, by simpa [Db.getCompletedTransactionById, ← hcid] using hget, hcid⟩

end Lookup

/-! ## Rollbacks -/

section Rollback

variable {accountId account : AccountId} {payref : PaymentReference} {txId : TxId} {height : Nat}
  {now : Timestamp} {db : Db}

theorem KnowsPayref.save {completed : Table CompletedTransactionRow}
    {history : AutoTable PayrefHistoryRow} (h : KnowsPayref accountId payref txId completed history)
    (m : Id → PayrefHistoryRow) (hm : ∀ k, key (m k) = k) :
    KnowsPayref accountId payref txId completed (history.insert m hm) := by
  refine h.imp_right ?_
  rintro ⟨row, hrow, hrest⟩
  exact ⟨row, (AutoTable.mem_insert hm).mpr (Or.inl hrow), hrest⟩

theorem saveDisplayedTransactionPayrefs_knows :
    Ensures (fun db => db.KnowsPayref accountId payref txId)
      (saveDisplayedTransactionPayrefsBeforeReorg account height now)
      (fun _ db => db.KnowsPayref accountId payref txId) := by
  let Knows : Db → Prop := fun db => db.KnowsPayref accountId payref txId
  refine Ensures.bind (Ensures.query (Q := fun _ => Knows) (fun db h => h)) (fun rows => ?_)
  refine Ensures.forM (I := fun _ => Knows) rows (fun row rest => ?_)
  refine Ensures.forM (I := fun _ => Knows) _ (fun old rest => ?_)
  exact Ensures.update (fun db h => KnowsPayref.save h _ (by intro _; rfl))

/-- While the completed transactions are saved: a reference that is not saved yet is in a row that
    will not be cleared, or in one still to come. -/
def SavingPayrefs (accountId : AccountId) (payref : PaymentReference) (txId : TxId)
    (account : AccountId) (height : Nat) (rest : List CompletedTransactionRow) (db : Db) : Prop :=
  (∃ c ∈ db.completedTransactions.rows, c.id = txId ∧ c.accountId = accountId ∧
      c.sentPayref = some payref ∧ (c.minedFrom account height = true → c ∈ rest)) ∨
    ∃ h ∈ db.payrefHistory.rows, h.transactionId = txId ∧ h.accountId = accountId ∧
      h.oldPayref = payref

theorem SavingPayrefs.save {row : CompletedTransactionRow} {rest : List CompletedTransactionRow}
    (h : SavingPayrefs accountId payref txId account height (row :: rest) db)
    (hrow : row.minedFrom account height = true) {old : PaymentReference}
    (hold : row.sentPayref = some old) :
    SavingPayrefs accountId payref txId account height rest
      (db.savePayrefHistory account row.id old row.sentOutputHash now) := by
  have hkept : ∀ saved ∈ db.payrefHistory.rows,
      saved ∈ (db.savePayrefHistory account row.id old row.sentOutputHash now).payrefHistory.rows :=
    fun saved hsaved => (AutoTable.mem_insert (by intro _; rfl)).mpr (Or.inl hsaved)
  rcases h with ⟨c, hc, hid, hacc, hpayref, hcome⟩ | ⟨saved, hsaved, hrest⟩
  · by_cases hcrow : c = row
    · subst hcrow
      cases hpayref.symm.trans hold
      have haccount : c.accountId = account := by
        simp only [CompletedTransactionRow.minedFrom, Bool.and_eq_true, beq_iff_eq] at hrow
        exact hrow.1.1
      exact Or.inr ⟨_, (AutoTable.mem_insert (by intro _; rfl)).mpr (Or.inr rfl), hid,
        haccount.symm.trans hacc, rfl⟩
    · refine Or.inl ⟨c, hc, hid, hacc, hpayref, fun hmined => ?_⟩
      exact (List.mem_cons.mp (hcome hmined)).resolve_left hcrow
  · exact Or.inr ⟨saved, hkept saved hsaved, hrest⟩

theorem saveCompletedTransactionPayrefs_saves :
    Ensures (fun db => db.KnowsPayref accountId payref txId)
      (saveCompletedTransactionPayrefsBeforeReorg account height now)
      (fun _ db => SavingPayrefs accountId payref txId account height [] db) := by
  let Saving := SavingPayrefs accountId payref txId account height
  let Listed : List CompletedTransactionRow → Prop := fun rows =>
    ∀ row ∈ rows, row.minedFrom account height = true
  refine Ensures.bind (Q := fun rows db => Listed rows ∧ Saving rows db)
    (Ensures.query (fun db h => ⟨fun row hrow => ?_, ?_⟩)) (fun rows => ?_)
  · have hp := (Table.mem_select.mp hrow).2
    simp only [Bool.and_eq_true] at hp
    exact hp.1
  · refine h.imp_left ?_
    rintro ⟨c, hc, hid, hacc, hpayref⟩
    refine ⟨c, hc, hid, hacc, hpayref, fun hmined => ?_⟩
    exact Table.mem_select.mpr ⟨hc, by simp [hmined, hpayref]⟩
  · refine (Ensures.forM (I := fun rest db => Listed rest ∧ Saving rest db) rows
      (fun row rest => ?_)).post (fun _ _ h => h.2)
    cases hold : row.sentPayref with
    | none =>
        refine Ensures.pure (fun db h => ⟨fun r hr => h.1 r (List.mem_cons_of_mem row hr), ?_⟩)
        refine h.2.imp_left ?_
        rintro ⟨c, hc, hid, hacc, hpayref, hcome⟩
        refine ⟨c, hc, hid, hacc, hpayref, fun hmined => ?_⟩
        refine (List.mem_cons.mp (hcome hmined)).resolve_left (fun heq => ?_)
        rw [heq, hold] at hpayref
        cases hpayref
    | some old =>
        refine Ensures.bind (Ensures.update (Q := fun _ db => Listed rest ∧ Saving rest db)
          (fun db h => ⟨fun r hr => h.1 r (List.mem_cons_of_mem row hr),
            h.2.save (h.1 row List.mem_cons_self) hold⟩)) (fun _ => Ensures.pure (fun _ h => h))

/-- A rollback clears no reference that it has not saved. -/
theorem rollbackFromHeight_knows {webhookConfig : Option WebhookTriggerConfig} :
    Ensures (fun db => db.KnowsPayref accountId payref txId)
      (rollbackFromHeight account height webhookConfig now)
      (fun _ db => db.KnowsPayref accountId payref txId) := by
  let v : Db → Table CompletedTransactionRow × AutoTable PayrefHistoryRow :=
    fun db => (db.completedTransactions, db.payrefHistory)
  let Knows : Table CompletedTransactionRow × AutoTable PayrefHistoryRow → Prop :=
    fun t => KnowsPayref accountId payref txId t.1 t.2
  have hlog : ∀ generatedEvents (events : List WalletEvent),
      Keeps v (events.foldlM (logWalletEvent account) generatedEvents) :=
    fun generatedEvents _ => logWalletEvents_keepsView generatedEvents (fun _ _ _ => rfl)
  have hreverse : ∀ original reversal, Keeps v (reverseBalanceChange original reversal) :=
    reverseBalanceChange_keepsView (fun _ _ => rfl)
  have hcancel : ∀ ids, Keeps v (cancelPendingTransactionsByIds ids .cancelled) := fun _ =>
    Keeps.ite Keeps.pure (Keeps.update (fun _ => rfl))
  have hinputs : Keeps v (softDeleteInputsFromHeight account height now) :=
    Keeps.bind Keeps.query (fun _ => Keeps.bind (Keeps.forM (fun _ => hreverse _ _))
      (fun _ => Keeps.update (fun _ => rfl)))
  have houtputs : Keeps v (softDeleteOutputsFromHeight account height now) :=
    Keeps.bind Keeps.query (fun _ => Keeps.bind (Keeps.forM (fun _ => hreverse _ _))
      (fun _ => Keeps.update (fun _ => rfl)))
  have hmark : Keeps v (markDisplayedTransactionsReorganizedAndReturn account height) :=
    Keeps.bind Keeps.query (fun _ => Keeps.foldlM (fun _ _ =>
      Keeps.bind (Keeps.update (fun _ => rfl)) (fun _ => Keeps.pure)))
  unfold rollbackFromHeight
  change Ensures (fun db => Knows (v db)) _ (fun _ db => Knows (v db))
  refine Ensures.bind (Keeps.tryQuery.ensures Knows) (fun _ => ?_)
  refine Ensures.bind ((hlog _ _).ensures Knows) (fun _ => ?_)
  refine Ensures.bind (Keeps.query.ensures Knows) (fun _ => ?_)
  refine Ensures.bind ((hlog _ _).ensures Knows) (fun _ => ?_)
  refine Ensures.bind ((hcancel _).ensures Knows) (fun _ => ?_)
  refine Ensures.bind ((hlog _ _).ensures Knows) (fun _ => ?_)
  refine Ensures.bind (hinputs.ensures Knows) (fun _ => ?_)
  refine Ensures.bind (houtputs.ensures Knows) (fun _ => ?_)
  refine Ensures.bind (Q := fun _ db => Knows (v db)) (Ensures.update (fun _ h => h)) (fun _ => ?_)
  refine Ensures.bind saveDisplayedTransactionPayrefs_knows (fun _ => ?_)
  refine Ensures.bind (hmark.ensures Knows) (fun _ => ?_)
  refine Ensures.bind saveCompletedTransactionPayrefs_saves (fun _ => ?_)
  refine Ensures.bind (Q := fun _ db => Knows (v db)) (Ensures.update (fun db h => ?_)) (fun _ => ?_)
  · -- what is left in a row that is cleared has been saved
    refine h.imp_left ?_
    rintro ⟨c, hc, hid, hacc, hpayref, hcome⟩
    refine ⟨c, ?_, hid, hacc, hpayref⟩
    have hkept : c.minedFrom account height = false := by
      cases hmined : c.minedFrom account height with
      | false => rfl
      | true => cases hcome hmined
    exact (Table.mem_updateWhere (by intro _; rfl)).mpr ⟨c, hc, by simp [hkept]⟩
  · exact Ensures.bind ((triggerWebhooks_keepsView (v := v) (fun _ _ => rfl) _ _ _ _).ensures Knows)
      (fun _ => Ensures.pure (fun _ h => h))

end Rollback

/-! ## Runs -/

/-- A confirmation does not overwrite another reference of the row. -/
def Statement.ConfirmsOnce (db : Db) : Statement → Prop
  | .markCompletedTransactionAsConfirmed txId _ sentPayref _ =>
    ∀ c ∈ db.completedTransactions.rows, c.id = txId → ∀ old ∈ c.sentPayref, old = sentPayref
  | _ => True

/-- The condition on a step; burns confirm nothing. -/
def ConfirmsOnce (env : TransactionEnv) (s : BurnSystem) : BurnAction → Prop
  | .wallet (.statement i ch) =>
    ∀ c ∈ s.wallet.calls[i]?, ∀ p ∈ c.next env ch s.wallet.db, p.1.ConfirmsOnce s.wallet.db
  | _ => True

section Steps

variable {env : TransactionEnv} {accountId : AccountId} {payref : PaymentReference} {txId : TxId}
  {db : Db} {x : Statement}

/-- The references of a row are not lost, whatever else is written to it. -/
theorem apply_payref (hx : x.ConfirmsOnce db) {c : CompletedTransactionRow}
    (hc : c ∈ db.completedTransactions.rows) (hpayref : c.sentPayref = some payref) :
    ∃ c' ∈ (x.apply db).completedTransactions.rows, c'.id = c.id ∧ c'.accountId = c.accountId ∧
      c'.sentPayref = some payref := by
  cases hw : x.statusWrite with
  | none => exact ⟨c, (apply_noStatusWrite db hw).1 c hc, rfl, rfl, hpayref⟩
  | some w =>
      rw [apply_statusWrite db hw]
      refine ⟨_, (Table.mem_updateWhere w.keepsId).mpr ⟨c, hc, rfl⟩, ?_⟩
      split
      · next hid =>
          refine ⟨w.keepsId c, (CompletedTransactionRow.Ages.columns ⟨w.facts_write hw c⟩).2, ?_⟩
          cases x <;> cases hw <;> try exact hpayref
          next confirmationHeight sentPayref now =>
            exact congrArg some (hx c hc (beq_iff_eq.mp hid) payref hpayref).symm
      · exact ⟨rfl, rfl, hpayref⟩

theorem Db.KnowsPayref.apply (h : db.KnowsPayref accountId payref txId) (hx : x.ConfirmsOnce db)
    (hhistory : (x.apply db).payrefHistory = db.payrefHistory) :
    (x.apply db).KnowsPayref accountId payref txId := by
  rcases h with ⟨c, hc, rfl, rfl, hpayref⟩ | hsaved
  · obtain ⟨c', hc', hid, hacc, hpayref'⟩ := apply_payref hx hc hpayref
    exact Or.inl ⟨c', hc', hid, hacc, hpayref'⟩
  · refine Or.inr ?_
    rwa [hhistory]

theorem knowsPayref_step {s s' : BurnSystem} {a : BurnAction}
    (h : s.wallet.db.KnowsPayref accountId payref txId) (ha : ConfirmsOnce env s a)
    (hstep : s.step env a = some s') : s'.wallet.db.KnowsPayref accountId payref txId := by
  have hr : RecordView (fun _ _ => True) Db.payrefHistory :=
    ⟨fun _ _ _ _ => rfl, fun _ _ => rfl, fun _ _ => rfl⟩
  have hs : StatementView Db.payrefHistory := ⟨fun _ _ => rfl, fun _ _ => rfl, fun _ _ => rfl⟩
  have hb : BlockView Db.payrefHistory :=
    ⟨fun _ _ => rfl, fun _ _ => rfl, fun _ _ => rfl, fun _ _ => rfl⟩
  rcases BurnSystem.step_db hstep with ⟨b, rfl, hb'⟩ |
    ⟨i, ch, result, st, x, st', rfl, -, hnext, hdb⟩ | ⟨-, -, hdb⟩
  · cases b with
    | rollbackFromHeight account height webhookConfig now =>
        obtain ⟨⟨info, db⟩, hrun, heq⟩ := Option.map_eq_some_iff.mp hb'
        rw [← heq]
        exact rollbackFromHeight_knows.of_runOk h hrun
    | statement i ch =>
        obtain ⟨c, x, c', hc, hnext, -, heq⟩ := WalletSystem.step_statement hb'
        have hview := BurnSystem.step_view hr hs hb hstep (by simp)
        rw [heq] at hview ⊢
        exact h.apply (ha c hc _ hnext) hview
    | processBlock bp block account now =>
        have hview := BurnSystem.step_view hr hs hb hstep (by simp)
        obtain ⟨db, heq, -, -, hcompleted⟩ := WalletSystem.step_processBlock hb'
        rw [heq] at hview ⊢
        unfold Db.KnowsPayref
        rw [show db.completedTransactions = s.wallet.db.completedTransactions from hcompleted,
          show db.payrefHistory = s.wallet.db.payrefHistory from hview]
        exact h
    | _ =>
        rcases WalletSystem.step_db hb' with hdb | ⟨_, _, h'⟩ | ⟨_, _, _, _, h'⟩ | ⟨_, _, _, _, h'⟩
        · rw [hdb]
          exact h
        all_goals cases h'
  · have hview := BurnSystem.step_view hr hs hb hstep (by simp)
    rw [hdb] at hview ⊢
    refine h.apply ?_ hview
    cases st <;> simp only [BurnState.next] at hnext <;> (try split at hnext) <;> cases hnext <;>
      exact trivial
  · rw [hdb]
    exact h

end Steps

/-- In every run of calls, burns, blocks and rollbacks whose confirmations overwrite no other
    reference, a reference that a completed transaction has at some point is known for it from there
    on, and leads to it as long as it is known for no other transaction. -/
theorem payref_still_resolves (env : TransactionEnv) {s s' : BurnSystem} {as : List BurnAction}
    (hconfirms : Transition.Along (BurnSystem.step env) (ConfirmsOnce env) s as)
    (hrun : Transition.run (BurnSystem.step env) s as = some s') {c : CompletedTransactionRow}
    (hc : c ∈ s.wallet.db.completedTransactions.rows) {payref : PaymentReference}
    (hpayref : c.sentPayref = some payref) :
    s'.wallet.db.KnowsPayref c.accountId payref c.id ∧
      ((∀ id, s'.wallet.db.KnowsPayref c.accountId payref id → id = c.id) →
        ∃ c', s'.wallet.db.apiGetCompletedTransactionByPayref c.accountId payref = some c' ∧
          c'.id = c.id) := by
  have hknown : s'.wallet.db.KnowsPayref c.accountId payref c.id :=
    Transition.inv_of_run (I := fun t => t.wallet.db.KnowsPayref c.accountId payref c.id)
      (fun _ _ _ h ha hstep => knowsPayref_step h ha hstep)
      (knowsPayref_of_live hc rfl hpayref) hconfirms hrun
  have hkept : s.wallet.db.ledger.Ages s'.wallet.db.ledger :=
    Transition.inv_of_steps (I := fun t => s.wallet.db.ledger.Ages t.wallet.db.ledger)
      (fun _ _ _ h hstep => h.trans (BurnSystem.ages_step hstep)) (.refl _) hrun
  obtain ⟨c', hc', hid, -⟩ := hkept.completed c hc
  exact ⟨hknown, fun honly => lookup_of_known hknown honly ⟨c', hc', hid⟩⟩

/-- A payment is mined in block 12 and confirmed. -/
def confirmedPayment : List SystemAction :=
  prepareStatements ++ .finalize 0 900 (some 901) (.error "not displayed") ::
    List.replicate 4 (.statement 1 { now := 10 }) ++
    [.send 1, .answer 0 (.ok ⟨true, .other ""⟩), .receive 1, .statement 1 { now := 10 },
      .monitor shallowMonitor] ++
    List.replicate 4 (.statement 2 { now := 12, minedIn := .ok (some (12, 112)) }) ++
    [.monitor shallowMonitor, .statement 3 {}, .statement 3 {}, .statement 3 {},
      .statement 3 { now := 14 }]

/-- Block 12 is rolled back, and the reference goes on to lead to the payment. -/
theorem payref_still_resolves_rolledBack : ∃ s s' c',
    Transition.run (BurnSystem.step plainTransactionEnv) { wallet := { db := fundedDb } }
      (confirmedPayment.map .wallet) = some s ∧
    Transition.run (BurnSystem.step plainTransactionEnv) s
      [.wallet (.rollbackFromHeight 1 12 none 15)] = some s' ∧
    s'.wallet.db.getCompletedTransactionByPayref 1 112901 = none ∧
    s'.wallet.db.apiGetCompletedTransactionByPayref 1 112901 = some c' ∧ c'.id = 21 := by
  obtain ⟨s, hrun, hq⟩ := Transition.exists_run_of_any (f := BurnSystem.step plainTransactionEnv)
    (s := { wallet := { db := fundedDb } }) (l := confirmedPayment.map .wallet)
    (q := fun s => decide ((s.wallet.db.completedTransactions.get? 21).map
        (fun c => (c.accountId, c.sentPayref)) = some (1, some 112901)) &&
      (Transition.run (BurnSystem.step plainTransactionEnv) s
        [.wallet (.rollbackFromHeight 1 12 none 15)]).any (fun (s' : BurnSystem) =>
          decide (s'.wallet.db.completedTransactions.rows.map (·.id) = [21] ∧
            s'.wallet.db.payrefHistory.rows.map (·.transactionId) = [21] ∧
            s'.wallet.db.getCompletedTransactionByPayref 1 112901 = none))) (by decide +kernel)
  rw [Bool.and_eq_true, decide_eq_true_eq] at hq
  obtain ⟨hrow, hrolled⟩ := hq
  obtain ⟨c, hget, hcols⟩ := Option.map_eq_some_iff.mp hrow
  obtain ⟨hc, hid⟩ := Table.get?_eq_some.mp hget
  obtain ⟨s', hrun', hs'⟩ := Transition.exists_run_of_any hrolled
  obtain ⟨hcompleted, hsaved, hnone⟩ := of_decide_eq_true hs'
  have hconfirms : Transition.Along (BurnSystem.step plainTransactionEnv)
      (ConfirmsOnce plainTransactionEnv) s [.wallet (.rollbackFromHeight 1 12 none 15)] := by
    obtain ⟨t, ht, -⟩ := Transition.run_cons.mp hrun'
    exact (Transition.along_cons ht).mpr ⟨trivial, trivial⟩
  have hacc : c.accountId = 1 := (Prod.mk.inj hcols).1
  obtain ⟨-, hlookup⟩ := payref_still_resolves plainTransactionEnv hconfirms hrun' hc
    (Prod.mk.inj hcols).2
  rw [hacc, show c.id = 21 from hid] at hlookup
  obtain ⟨c', hc', hid'⟩ := hlookup (fun id hknown => by
    rcases hknown with ⟨c₁, hc₁, rfl, -⟩ | ⟨row, hrow, rfl, -⟩
    · exact List.mem_singleton.mp (hcompleted ▸ List.mem_map_of_mem hc₁)
    · exact List.mem_singleton.mp (hsaved ▸ List.mem_map_of_mem hrow))
  exact ⟨s, s', c', hrun, hrun', hnone, hc', hid'⟩

end MinotariWallet
