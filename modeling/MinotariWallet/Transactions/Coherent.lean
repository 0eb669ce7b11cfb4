import MinotariWallet.Transactions.Burn
import MinotariWallet.Transactions.Consistent
import MinotariWallet.Transactions.Reservation

set_option autoImplicit false

/-! # The fields of completed transactions

`mined_*`, `confirmation_height` and `sent_payref` belong to certain statuses, and `Rejected` is
final. Every status is written by an `UPDATE` by id, without a look at the status that is there; what
keeps the fields in step is that the row is still as the writer has read it. -/

namespace MinotariWallet

open Sql Exec

/-! ## Rows -/

def CompletedTransactionStatus.isMined : CompletedTransactionStatus → Bool
  | .minedUnconfirmed => true
  | .minedConfirmed => true
  | _ => false

/-- The fields that are set are those of the status. -/
@[mk_iff]
structure CompletedTransactionRow.Coherent (c : CompletedTransactionRow) : Prop where
  minedHeight : c.minedHeight.isSome = c.status.isMined
  minedBlockHash : c.minedBlockHash.isSome = c.status.isMined
  sentPayref : c.sentPayref.isSome = (c.status == .minedConfirmed)
  confirmationHeight : c.confirmationHeight.isSome = (c.status == .minedConfirmed)

instance (c : CompletedTransactionRow) : Decidable c.Coherent :=
  decidable_of_iff' _ (CompletedTransactionRow.coherent_iff c)

def CoherentTransactions (db : Db) : Prop := ∀ c ∈ db.completedTransactions.rows, c.Coherent

/-- What was rejected is still rejected. -/
def RejectedKept (db db' : Db) : Prop :=
  ∀ c ∈ db.completedTransactions.rows, c.status = .rejected →
    ∃ c' ∈ db'.completedTransactions.rows, c'.id = c.id ∧ c'.status = .rejected

instance (db : Db) : Decidable (CoherentTransactions db) := by
  unfold CoherentTransactions
  infer_instance

instance (db db' : Db) : Decidable (RejectedKept db db') := by
  unfold RejectedKept
  infer_instance

/-! ## Status writers -/

/-- An `UPDATE` of the status of one row: the statuses that it may meet there, and that these are
    exactly those from which it leaves a coherent row and does not undo a rejection. -/
structure StatusWrite where
  txId : TxId
  write : CompletedTransactionRow → CompletedTransactionRow
  expects : CompletedTransactionStatus → Bool
  keepsId : ∀ c, (write c).id = c.id
  coherent_iff : ∀ c : CompletedTransactionRow, c.Coherent →
    ((write c).Coherent ∧ (c.status = .rejected → (write c).status = .rejected) ↔
      expects c.status = true)

/-- The columns that a status write changes are others than the id. -/
theorem CompletedTransactionRow.id_refl (c : CompletedTransactionRow) : c.id = c.id := rfl

/-- A rejection may meet any row that is not mined. -/
def rejectedWrite (txId : TxId) (reason : String) (now : Timestamp) : StatusWrite where
  txId := txId
  write c := { c with status := .rejected, lastRejectedReason := some reason, updatedAt := now }
  expects status := !status.isMined
  keepsId := CompletedTransactionRow.id_refl
  coherent_iff c h := by
    obtain ⟨hheight, hhash, hpayref, hconf⟩ := h
    rw [CompletedTransactionRow.coherent_iff]
    cases hs : c.status <;>
      simp [hs, hheight, hhash, hpayref, hconf, CompletedTransactionStatus.isMined]

/-- A broadcast may meet any row that is neither mined nor rejected. -/
def broadcastWrite (txId : TxId) (attempts : Nat) (now : Timestamp) : StatusWrite where
  txId := txId
  write c := { c with status := .broadcast, broadcastAttempts := attempts, updatedAt := now }
  expects status := !status.isMined && status != .rejected
  keepsId := CompletedTransactionRow.id_refl
  coherent_iff c h := by
    obtain ⟨hheight, hhash, hpayref, hconf⟩ := h
    rw [CompletedTransactionRow.coherent_iff]
    cases hs : c.status <;>
      simp [hs, hheight, hhash, hpayref, hconf, CompletedTransactionStatus.isMined]

/-- A block may meet any row that is neither confirmed nor rejected. -/
def minedWrite (txId : TxId) (blockHeight : Int) (blockHash : FixedHash) (now : Timestamp) :
    StatusWrite where
  txId := txId
  write c := { c with
    status := .minedUnconfirmed
    minedHeight := some blockHeight
    minedBlockHash := some blockHash
    updatedAt := now }
  expects status := status != .minedConfirmed && status != .rejected
  keepsId := CompletedTransactionRow.id_refl
  coherent_iff c h := by
    obtain ⟨hheight, hhash, hpayref, hconf⟩ := h
    rw [CompletedTransactionRow.coherent_iff]
    cases hs : c.status <;> simp [hs, hpayref, hconf, CompletedTransactionStatus.isMined]

/-- A confirmation may meet a mined row. -/
def confirmedWrite (txId : TxId) (confirmationHeight : Int) (sentPayref : PaymentReference)
    (now : Timestamp) : StatusWrite where
  txId := txId
  write c := { c with
    status := .minedConfirmed
    confirmationHeight := some confirmationHeight
    sentPayref := some sentPayref
    updatedAt := now }
  expects status := status.isMined
  keepsId := CompletedTransactionRow.id_refl
  coherent_iff c h := by
    obtain ⟨hheight, hhash, hpayref, hconf⟩ := h
    rw [CompletedTransactionRow.coherent_iff]
    cases hs : c.status <;> simp [hs, hheight, hhash, CompletedTransactionStatus.isMined]

/-- The status that a statement writes. -/
def Statement.statusWrite : Statement → Option StatusWrite
  | .markCompletedTransactionAsRejected txId reason now => some (rejectedWrite txId reason now)
  | .markCompletedTransactionAsBroadcasted txId attempts now =>
    some (broadcastWrite txId attempts now)
  | .markCompletedTransactionAsMinedUnconfirmed txId blockHeight blockHash now =>
    some (minedWrite txId blockHeight blockHash now)
  | .markCompletedTransactionAsConfirmed txId confirmationHeight sentPayref now =>
    some (confirmedWrite txId confirmationHeight sentPayref now)
  | _ => none

/-- The row that a statement writes the status of is in a status that it expects. -/
def Statement.MeetsExpected (db : Db) (x : Statement) : Prop :=
  ∀ w ∈ x.statusWrite, ∀ c ∈ db.completedTransactions.rows, c.id = w.txId →
    w.expects c.status = true

section Statements

variable {db : Db} {x : Statement}

theorem RejectedKept.of_eq {db' : Db} (h : db'.completedTransactions = db.completedTransactions) :
    RejectedKept db db' :=
  fun c hc hstatus => ⟨c, by rw [h]; exact hc, rfl, hstatus⟩

/-- A status write takes the rows with its id to what it writes. -/
theorem apply_statusWrite (db : Db) {w : StatusWrite} (h : x.statusWrite = some w) :
    (x.apply db).completedTransactions =
      db.completedTransactions.updateWhere (fun c => c.id == w.txId) w.write w.keepsId := by
  cases x <;> cases h <;> rfl

/-- The other statements change no row, and the rows they add are coherent. -/
theorem apply_noStatusWrite (db : Db) (h : x.statusWrite = none) :
    (∀ c ∈ db.completedTransactions.rows, c ∈ (x.apply db).completedTransactions.rows) ∧
      ∀ c ∈ (x.apply db).completedTransactions.rows,
        c ∈ db.completedTransactions.rows ∨ c.Coherent := by
  have hsame : (x.apply db).completedTransactions = db.completedTransactions →
      (∀ c ∈ db.completedTransactions.rows, c ∈ (x.apply db).completedTransactions.rows) ∧
        ∀ c ∈ (x.apply db).completedTransactions.rows,
          c ∈ db.completedTransactions.rows ∨ c.Coherent := by
    intro heq
    rw [heq]
    exact ⟨fun _ hc => hc, fun _ hc => Or.inl hc⟩
  cases x with
  | record x hkeeps => exact hsame (congrArg Ledger.completedTransactions (record_ledger hkeeps db))
  | createPendingTransaction new =>
      refine hsame ?_
      cases hc : db.createPending new with
      | error e => simp only [Statement.apply, hc, Except.toOption, Option.getD_none]
      | ok db' =>
          rw [apply_createPending hc]
          obtain ⟨_, -, -, -, -, -, _, -, rfl⟩ := createPending_ok hc
          rfl
  | createPendingTransactionAndLock new =>
      refine hsame ?_
      cases hc : db.createPending new with
      | error e =>
          simp only [Statement.apply, Db.createPendingAndLock, hc, Except.map, Except.toOption,
            Option.getD_none]
      | ok db' =>
          rw [apply_createPendingAndLock hc, lockOutputs_completedTransactions]
          obtain ⟨_, -, -, -, -, -, _, -, rfl⟩ := createPending_ok hc
          rfl
  | createCompletedTransaction new =>
      cases hc : db.createCompleted new with
      | error e =>
          exact hsame (by simp only [Statement.apply, hc, Except.toOption, Option.getD_none])
      | ok db' =>
          rw [apply_createCompleted hc]
          unfold Db.createCompleted Db.createCompletedTransaction at hc
          split at hc
          · split at hc
            · cases hc
            · next completedTransactions hins =>
                cases hc
                refine ⟨fun c h => (Table.mem_insert? hins).mpr (Or.inl h), fun c h => ?_⟩
                rcases (Table.mem_insert? hins).mp h with h | rfl
                · exact Or.inl h
                · exact Or.inr ⟨rfl, rfl, rfl, rfl⟩
          · cases hc
  | read => exact hsame rfl
  | lockOutput outputId req now => exact hsame rfl
  | updatePendingTransactionStatus id status => exact hsame rfl
  | unlockOutputsForRequest req => exact hsame rfl
  | expireAndUnlock id => exact hsame rfl
  | markCompletedTransactionAsRejected txId reason now => cases h
  | markCompletedTransactionAsBroadcasted txId attempts now => cases h
  | markCompletedTransactionAsMinedUnconfirmed txId blockHeight blockHash now => cases h
  | markCompletedTransactionAsConfirmed txId confirmationHeight sentPayref now => cases h

/-- A statement on coherent rows leaves them coherent and what was rejected rejected, if and only if
    it meets a status that it expects. -/
theorem apply_coherent_iff (h : CoherentTransactions db) :
    CoherentTransactions (x.apply db) ∧ RejectedKept db (x.apply db) ↔ x.MeetsExpected db := by
  cases hw : x.statusWrite with
  | none =>
      obtain ⟨hkept, hrows⟩ := apply_noStatusWrite db hw
      have hmeets : x.MeetsExpected db := fun w hmem => by rw [hw] at hmem; cases hmem
      refine iff_of_true ⟨fun c hc => (hrows c hc).elim (h c) id, fun c hc hstatus => ?_⟩ hmeets
      exact ⟨c, hkept c hc, rfl, hstatus⟩
  | some w =>
      have happly := apply_statusWrite db hw
      constructor
      · rintro ⟨hcoherent, hrejected⟩ w' hmem c hc hid
        cases hmem.symm.trans hw
        have hwritten : w.write c ∈ (x.apply db).completedTransactions.rows := by
          rw [happly]
          exact (Table.mem_updateWhere w.keepsId).mpr ⟨c, hc, by simp [hid]⟩
        refine (w.coherent_iff c (h c hc)).mp ⟨hcoherent _ hwritten, fun hstatus => ?_⟩
        -- the row with the id of a rejected one is the one just written
        obtain ⟨c', hc', hid', hstatus'⟩ := hrejected c hc hstatus
        have heq : c' = w.write c := (x.apply db).completedTransactions.eq_of_key_eq hc' hwritten
          (hid'.trans (w.keepsId c).symm)
        rw [← heq]
        exact hstatus'
      · intro hmeets
        have hrow : ∀ c ∈ db.completedTransactions.rows, c.id = w.txId →
            (w.write c).Coherent ∧ (c.status = .rejected → (w.write c).status = .rejected) :=
          fun c hc hid => (w.coherent_iff c (h c hc)).mpr (hmeets w hw c hc hid)
        unfold CoherentTransactions RejectedKept
        rw [happly]
        constructor
        · intro c' hc'
          obtain ⟨c, hc, rfl⟩ := (Table.mem_updateWhere w.keepsId).mp hc'
          by_cases hid : (c.id == w.txId) = true
          · rw [if_pos hid]
            exact (hrow c hc (beq_iff_eq.mp hid)).1
          · rw [if_neg hid]
            exact h c hc
        · intro c hc hstatus
          refine ⟨_, (Table.mem_updateWhere w.keepsId).mpr ⟨c, hc, rfl⟩, ?_⟩
          by_cases hid : (c.id == w.txId) = true
          · rw [if_pos hid]
            exact ⟨w.keepsId c, (hrow c hc (beq_iff_eq.mp hid)).2 hstatus⟩
          · rw [if_neg hid]
            exact ⟨rfl, hstatus⟩

/-- A rollback resets mined rows only. -/
theorem coherent_reset {db' : Db} {accountId : AccountId} {height : Nat} {now : Timestamp}
    (h : CoherentTransactions db) (hreset : db'.completedTransactions =
      (db.resetMinedCompletedTransactionsFromHeight accountId height now).completedTransactions) :
    CoherentTransactions db' ∧ RejectedKept db db' := by
  unfold CoherentTransactions RejectedKept
  rw [hreset]
  constructor
  · intro c' hc'
    obtain ⟨c, hc, rfl⟩ := (Table.mem_updateWhere (by intro _; rfl)).mp hc'
    split
    · exact ⟨rfl, rfl, rfl, rfl⟩
    · exact h c hc
  · intro c hc hstatus
    have hnot : c.minedFrom accountId height = false := by
      simp [CompletedTransactionRow.minedFrom, hstatus]
    exact ⟨c, (Table.mem_updateWhere (by intro _; rfl)).mpr ⟨c, hc, by simp [hnot]⟩, rfl, hstatus⟩

end Statements

/-! ## Runs -/

/-- The condition on a step: the status write of a call or of a burn meets a row in a status that it
    expects. -/
def WritesExpected (env : TransactionEnv) (s : BurnSystem) : BurnAction → Prop
  | .wallet (.statement i ch) =>
    ∀ c ∈ s.wallet.calls[i]?, ∀ p ∈ c.next env ch s.wallet.db, p.1.MeetsExpected s.wallet.db
  | .statement i ch =>
    ∀ b ∈ s.burns[i]?, ∀ p ∈ b.2.next ch s.wallet.db b.1, p.1.MeetsExpected s.wallet.db
  | _ => True

/-- The step undoes no rejection. -/
def KeepsRejected (env : TransactionEnv) (s : BurnSystem) (a : BurnAction) : Prop :=
  ∀ s' ∈ s.step env a, RejectedKept s.wallet.db s'.wallet.db

instance (env : TransactionEnv) (s : BurnSystem) (a : BurnAction) :
    Decidable (KeepsRejected env s a) := by
  unfold KeepsRejected
  infer_instance

section Runs

variable {env : TransactionEnv} {s s' : BurnSystem} {a : BurnAction}

theorem step_coherent_iff (h : CoherentTransactions s.wallet.db) (hstep : s.step env a = some s') :
    CoherentTransactions s'.wallet.db ∧ RejectedKept s.wallet.db s'.wallet.db ↔
      WritesExpected env s a := by
  have hunchanged : s'.wallet.db.completedTransactions = s.wallet.db.completedTransactions →
      CoherentTransactions s'.wallet.db ∧ RejectedKept s.wallet.db s'.wallet.db := by
    intro heq
    refine ⟨?_, .of_eq heq⟩
    unfold CoherentTransactions
    rw [heq]
    exact h
  rcases BurnSystem.step_db hstep with ⟨b, rfl, hb⟩ |
    ⟨i, ch, result, st, x, st', rfl, hburn, hnext, hdb⟩ | ⟨hwallet, hstatement, hdb⟩
  · cases b with
    | statement i ch =>
        obtain ⟨c, x, c', hc, hnext, -, hs⟩ := WalletSystem.step_statement hb
        rw [hs, apply_coherent_iff h]
        simp only [WritesExpected, hc, Option.mem_def, Option.some.injEq, forall_eq', hnext]
    | rollbackFromHeight accountId height webhookConfig now =>
        obtain ⟨db, hs, -, -, hcompleted⟩ := WalletSystem.step_rollbackFromHeight hb
        refine iff_of_true ?_ trivial
        rw [hs]
        exact coherent_reset h hcompleted
    | processBlock bp block accountId now =>
        obtain ⟨db, hs, -, -, hcompleted⟩ := WalletSystem.step_processBlock hb
        exact iff_of_true (hunchanged (by rw [hs]; exact hcompleted)) trivial
    | _ =>
        have hdb : s'.wallet.db = s.wallet.db := by
          rcases WalletSystem.step_db hb with hdb | ⟨_, _, h'⟩ | ⟨_, _, _, _, h'⟩ | ⟨_, _, _, _, h'⟩
          · exact hdb
          all_goals cases h'
        exact iff_of_true (hunchanged (by rw [hdb])) trivial
  · rw [hdb, apply_coherent_iff h]
    simp only [WritesExpected, hburn, Option.mem_def, Option.some.injEq, forall_eq', hnext]
  · refine iff_of_true (hunchanged (by rw [hdb])) ?_
    cases a with
    | wallet b => exact absurd rfl (hwallet b)
    | statement i ch => exact absurd rfl (hstatement i ch)
    | burn lockCall kernelExcess outputHash txId => trivial
    | send i => trivial
    | receive i => trivial
    | transportError i retry message => trivial

/-- In every run of calls, burns, blocks and rollbacks, the rows are coherent in every state reached
    and no step undoes a rejection, if and only if the rows are coherent at the start and every status
    write meets a row in a status that it expects. -/
theorem coherent_always_iff (env : TransactionEnv) (s : BurnSystem) (as : List BurnAction) :
    Transition.Always (BurnSystem.step env) (fun s => CoherentTransactions s.wallet.db) s as ∧
        Transition.Along (BurnSystem.step env) (KeepsRejected env) s as ↔
      CoherentTransactions s.wallet.db ∧
        Transition.Along (BurnSystem.step env) (WritesExpected env) s as := by
  constructor
  · rintro ⟨halways, hkeeps⟩
    refine ⟨halways.head, Transition.along_of_always (I := fun _ => True)
      (fun _ _ _ _ _ _ _ => trivial) (fun s a s' _ h hk hstep h' => ?_) trivial hkeeps halways⟩
    exact (step_coherent_iff h hstep).mp ⟨h', hk s' hstep⟩
  · rintro ⟨hstart, hgood⟩
    have hstep : ∀ s a s', CoherentTransactions s.wallet.db → WritesExpected env s a →
        s.step env a = some s' → CoherentTransactions s'.wallet.db :=
      fun _ _ _ h hg hstep => ((step_coherent_iff h hstep).mpr hg).1
    refine ⟨Transition.always_of_along hstep (fun _ h => h) hstart hgood,
      Transition.along_of_along hstep (fun s a s' h hg hs s'' hs'' => ?_) hstart hgood⟩
    exact ((step_coherent_iff h hs'').mpr hg).2

end Runs

/-- A monitor of account 1 without a required depth. -/
def shallowMonitor : TransactionMonitor where
  accountId := 1
  currentChainHeight := 12
  requiredConfirmations := 0
  webhookConfig := none

/-- The payment is about to be submitted when a monitor lists it as `Completed`; the node turns the
    submission down, and accepts the one of the monitor. -/
def acceptedAfterRejection : List SystemAction :=
  prepareStatements ++ finalizeStatements 1 10 ++
    [.monitor shallowMonitor, .statement 2 {}, .statement 2 {},
      .send 1, .answer 0 (.ok ⟨false, .other "orphan"⟩), .receive 1, .statement 1 { now := 11 },
      .send 2, .answer 1 (.ok ⟨true, .other ""⟩), .receive 2, .statement 2 { now := 12 }]

/-- The payment is mined in block 12 and listed by a monitor; then block 12 is rolled back, and the
    monitor confirms the payment. -/
def confirmedAfterRollback : List SystemAction :=
  prepareStatements ++ .finalize 0 900 (some 901) (.error "not displayed") ::
    List.replicate 4 (.statement 1 { now := 10 }) ++
    [.send 1, .answer 0 (.ok ⟨true, .other ""⟩), .receive 1, .statement 1 { now := 10 },
      .monitor shallowMonitor] ++
    List.replicate 4 (.statement 2 { now := 12, minedIn := .ok (some (12, 112)) }) ++
    [.monitor shallowMonitor, .statement 3 {}, .statement 3 {}, .statement 3 {},
      .rollbackFromHeight 1 12 none 13, .statement 3 { now := 14 }]

/-- After the first run a rejected payment is `Broadcast`; in the second a payment that no block has
    is `MinedConfirmed`. -/
theorem confirmedAfterRollback_incoherent :
    (CoherentTransactions fundedDb ∧
      ¬Transition.Along (BurnSystem.step plainTransactionEnv) (KeepsRejected plainTransactionEnv)
        { wallet := { db := fundedDb } } (acceptedAfterRejection.map .wallet)) ∧
      ¬Transition.Always (BurnSystem.step plainTransactionEnv)
        (fun s => CoherentTransactions s.wallet.db) { wallet := { db := fundedDb } }
        (confirmedAfterRollback.map .wallet) := by
  decide +kernel

end MinotariWallet
