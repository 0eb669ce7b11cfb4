import MinotariWallet.Ledger.Accounts
import MinotariWallet.Transactions.OnePayment

set_option autoImplicit false

/-! # Accounts and concurrent calls

A call works for one account, and takes from the database what belongs to that account: the pending
transaction of its key, outputs to lock, the transactions to monitor. What belongs to an account
goes on belonging to it, whatever runs in between, so the statements of a call stay in its account
although they select by id. -/

namespace MinotariWallet

open Sql Exec Processes

/-! ## Statements -/

/-- What the statement writes or refers to is the account's, as far as it is there. -/
def Statement.OfAccount (db : Db) (a : AccountId) : Statement → Prop
  | .read => True
  | .record _ _ => True
  | .createPendingTransaction new => ∀ db', db.createPending new = .ok db' → new.accountId = a
  | .createPendingTransactionAndLock new => ∀ db', db.createPending new = .ok db' →
    new.accountId = a ∧ ∀ u ∈ new.selection.utxos, db.outputs.Owns OutputRow.accountId u.id a
  | .lockOutput outputId req _ => db.outputs.Owns OutputRow.accountId outputId a ∧
    db.pendingTransactions.Owns PendingTransactionRow.accountId req a
  | .updatePendingTransactionStatus id _ =>
    ∀ p ∈ db.pendingTransactions.rows, p.id = id → p.accountId = a
  | .unlockOutputsForRequest id => ∀ p ∈ db.pendingTransactions.rows, p.id = id → p.accountId = a
  | .expireAndUnlock id => ∀ p ∈ db.pendingTransactions.rows, p.id = id → p.accountId = a
  | .createCompletedTransaction new => new.accountId = a ∧
    db.pendingTransactions.Owns PendingTransactionRow.accountId new.pendingTxId a
  | .markCompletedTransactionAsRejected txId _ _ =>
    ∀ c ∈ db.completedTransactions.rows, c.id = txId → c.accountId = a
  | .markCompletedTransactionAsBroadcasted txId _ _ =>
    ∀ c ∈ db.completedTransactions.rows, c.id = txId → c.accountId = a
  | .markCompletedTransactionAsMinedUnconfirmed txId _ _ _ =>
    ∀ c ∈ db.completedTransactions.rows, c.id = txId → c.accountId = a
  | .markCompletedTransactionAsConfirmed txId _ _ _ =>
    ∀ c ∈ db.completedTransactions.rows, c.id = txId → c.accountId = a

namespace Ledger.Within

variable {L₀ : Ledger} {db db' : Db} {a : AccountId}

theorem createPending (h : L₀.Within a db.ledger) {new : NewPendingTransaction}
    (hacc : new.accountId = a) (hc : db.createPending new = .ok db') :
    L₀.Within a db'.ledger := by
  obtain ⟨row, -, hrow, -, -, -, pendingTransactions, hins, rfl⟩ := createPending_ok hc
  refine ⟨h.same.setPending (.insert? hins), h.leaves.trans (fun other hne => ?_)⟩
  have hselect : pendingTransactions.select (fun p => p.accountId == other) =
      db.pendingTransactions.select (fun p => p.accountId == other) :=
    Table.select_insert?_outside hins (by simp [hrow, hacc, hne.symm])
  simp only [rowsOf, Db.ledger, hselect]

theorem lockOutput (h : L₀.Within a db.ledger) {outputId : Id} {req : RequestId}
    (hout : db.outputs.Owns OutputRow.accountId outputId a)
    (hreq : db.pendingTransactions.Owns PendingTransactionRow.accountId req a) (now : Timestamp) :
    L₀.Within a (db.lockOutput outputId req now).ledger := by
  have hage : ∀ o : OutputRow, (o.id == outputId && o.status == .unspent) = true →
      o.Ages { o with status := .locked, lockedByRequestId := some req, lockedAt := some now } :=
    fun o hp => OutputRow.ages_locked hp req now
  have hacc : ∀ o ∈ db.outputs.rows, (o.id == outputId && o.status == .unspent) = true →
      o.accountId = a := by
    intro o ho hp
    simp only [Bool.and_eq_true, beq_iff_eq] at hp
    exact hout.eq ho hp.1
  refine ⟨h.same.ageOutputs (Table.retains_updateWhere _ hage (by intro _; rfl)) (fun o' ho' => ?_),
    h.leaves.trans (Leaves.updateOutputs (L := db.ledger) (fun o ho hp => Or.inl (hacc o ho hp))
      hage (by intro _; rfl))⟩
  obtain ⟨o, ho, rfl⟩ := (AutoTable.mem_updateWhere (by intro _; rfl)).mp ho'
  refine ⟨o, ho, ?_⟩
  split
  · next hp =>
      refine ⟨hage o hp, Or.inr (fun req' hreq' => ?_)⟩
      cases hreq'
      have haccount := hacc o ho hp
      rwa [← haccount] at hreq
  · exact ⟨Std.Refl.refl o, Or.inl rfl⟩

theorem lockOutputs (h : L₀.Within a db.ledger) {req : RequestId} (utxos : List DbWalletOutput)
    (hout : ∀ u ∈ utxos, db.outputs.Owns OutputRow.accountId u.id a)
    (hreq : db.pendingTransactions.Owns PendingTransactionRow.accountId req a) (now : Timestamp) :
    L₀.Within a (db.lockOutputs utxos req now).ledger := by
  induction utxos generalizing db with
  | nil => exact h
  | cons u rest ih =>
      refine ih (h.lockOutput (hout u List.mem_cons_self) hreq now) (fun u' hu' => ?_) hreq
      have hkept := (outputsFrom_apply db (.lockOutput u.id req now)).forward
      obtain ⟨o, ho, hid, hacc⟩ := hout u' (List.mem_cons_of_mem u hu')
      obtain ⟨o', ho', hchange⟩ := hkept o ho
      exact ⟨o', ho', hchange.ages.1.trans hid, hchange.ages.2.columns.2.1.trans hacc⟩

theorem updatePendingTransactionStatus (h : L₀.Within a db.ledger) {id : RequestId}
    {status : PendingTransactionStatus} (hstatus : status ≠ .pending)
    (hacc : ∀ p ∈ db.pendingTransactions.rows, p.id = id → p.accountId = a) :
    L₀.Within a (db.updatePendingTransactionStatus id status).ledger := by
  refine ⟨h.same.setPending (.updateWhere (fun p _ => p.ages_ended hstatus) (by intro _; rfl)),
    h.leaves.trans (Leaves.updatePending (L := db.ledger) (fun p hp hid => ?_)
      (by intro _; rfl))⟩
  have haccount := hacc p hp (beq_iff_eq.mp hid)
  exact ⟨haccount, haccount⟩

theorem unlockOutputsForRequest (h : L₀.Within a db.ledger) {id : RequestId}
    (hacc : ∀ p ∈ db.pendingTransactions.rows, p.id = id → p.accountId = a) :
    L₀.Within a (db.unlockOutputsForRequest id).ledger := by
  have hage : ∀ o : OutputRow, (o.lockedByRequestId == some id && o.status == .locked) = true →
      o.Ages { o with status := .unspent, lockedAt := none, lockedByRequestId := none } :=
    fun o hp => OutputRow.ages_unlocked hp
  refine ⟨h.same.ageOutputs (Table.retains_updateWhere _ hage (by intro _; rfl)) (fun o' ho' => ?_),
    h.leaves.trans (Leaves.updateOutputs (L := db.ledger) (fun o ho hp => Or.inl ?_) hage
      (by intro _; rfl))⟩
  · obtain ⟨o, ho, rfl⟩ := (AutoTable.mem_updateWhere (by intro _; rfl)).mp ho'
    refine ⟨o, ho, ?_⟩
    split
    · next hp => exact ⟨hage o hp, Or.inr (fun req hreq => by cases hreq)⟩
    · exact ⟨Std.Refl.refl o, Or.inl rfl⟩
  · -- the request of a locked output is a pending transaction of its account
    simp only [Bool.and_eq_true, beq_iff_eq] at hp
    obtain ⟨p, hpending, hid, haccount⟩ := h.same.locks o ho id hp.1
    exact haccount.symm.trans (hacc p hpending hid)

theorem createCompleted (h : L₀.Within a db.ledger) {new : NewCompletedTransaction}
    (hacc : new.accountId = a)
    (hpending : db.pendingTransactions.Owns PendingTransactionRow.accountId new.pendingTxId a)
    (hc : db.createCompleted new = .ok db') : L₀.Within a db'.ledger := by
  unfold Db.createCompleted Db.createCompletedTransaction at hc
  split at hc
  · split at hc
    · cases hc
    · next completedTransactions hins =>
        cases hc
        refine ⟨h.same.setCompleted (.insert? hins) (fun c' hc' => ?_),
          h.leaves.trans (fun other hne => ?_)⟩
        · rcases (Table.mem_insert? hins).mp hc' with hold | rfl
          · exact Or.inl ⟨c', hold, Std.Refl.refl c'⟩
          · exact Or.inr (hacc ▸ hpending)
        · have hselect : completedTransactions.select (fun c => c.accountId == other) =
              db.completedTransactions.select (fun c => c.accountId == other) :=
            Table.select_insert?_outside hins (by simp [hacc, hne.symm])
          simp only [rowsOf, Db.ledger, hselect]
  · cases hc

theorem writeStatus (h : L₀.Within a db.ledger) (w : StatusWrite)
    (hfacts : ∀ c, (w.write c).facts = c.facts)
    (hacc : ∀ c ∈ db.completedTransactions.rows, c.id = w.txId → c.accountId = a) :
    L₀.Within a (Db.ledger { db with
      completedTransactions :=
        db.completedTransactions.updateWhere (fun c => c.id == w.txId) w.write w.keepsId }) := by
  refine ⟨h.same.updateCompleted (fun c _ => ⟨hfacts c⟩) w.keepsId,
    h.leaves.trans (Leaves.updateCompleted (L := db.ledger) (fun c hc hid => ?_) w.keepsId)⟩
  have haccount := hacc c hc (beq_iff_eq.mp hid)
  exact ⟨haccount, (CompletedTransactionRow.Ages.columns ⟨hfacts c⟩).2.trans haccount⟩

/-- A statement of an account stays in it. -/
theorem apply (h : L₀.Within a db.ledger) {x : Statement} (hx : x.OfAccount db a)
    (hsets : ∀ id status, x.sets = some (id, status) → status ≠ .pending) :
    L₀.Within a (x.apply db).ledger := by
  cases x with
  | read => exact h
  | record y hy =>
      rwa [show ((Statement.record y hy).apply db).ledger = db.ledger from record_ledger hy db]
  | createPendingTransaction new =>
      cases hc : db.createPending new with
      | error e => simpa [Statement.apply, hc, Except.toOption] using h
      | ok db' =>
          rw [apply_createPending hc]
          exact h.createPending (hx db' hc) hc
  | createPendingTransactionAndLock new =>
      cases hc : db.createPending new with
      | error e =>
          simpa [Statement.apply, Db.createPendingAndLock, hc, Except.toOption, Except.map] using h
      | ok db' =>
          rw [apply_createPendingAndLock hc]
          obtain ⟨hacc, hout⟩ := hx db' hc
          have hcreated := h.createPending hacc hc
          obtain ⟨row, hid, hrow, -, -, -, pendingTransactions, hins, rfl⟩ := createPending_ok hc
          exact hcreated.lockOutputs _ hout
            ⟨row, (Table.mem_insert? hins).mpr (Or.inr rfl), hid, hrow.trans hacc⟩ _
  | lockOutput outputId req now => exact h.lockOutput hx.1 hx.2 now
  | updatePendingTransactionStatus id status =>
      exact h.updatePendingTransactionStatus (hsets id status rfl) hx
  | unlockOutputsForRequest id => exact h.unlockOutputsForRequest hx
  | expireAndUnlock id =>
      have hexpired : PendingTransactionStatus.expired ≠ .pending := by decide
      refine (h.updatePendingTransactionStatus hexpired hx).unlockOutputsForRequest
        (fun p' hp' hid => ?_)
      obtain ⟨p, hp, rfl⟩ := (Table.mem_updateWhere (by intro _; rfl)).mp hp'
      by_cases hset : (p.id == id) = true
      · rw [if_pos hset] at hid ⊢
        exact hx p hp hid
      · rw [if_neg hset] at hid ⊢
        exact hx p hp hid
  | createCompletedTransaction new =>
      cases hc : db.createCompleted new with
      | error e => simpa [Statement.apply, hc, Except.toOption] using h
      | ok db' =>
          rw [apply_createCompleted hc]
          exact h.createCompleted hx.1 hx.2 hc
  | markCompletedTransactionAsRejected txId reason now =>
      exact h.writeStatus (rejectedWrite txId reason now) (fun _ => rfl) hx
  | markCompletedTransactionAsBroadcasted txId attempts now =>
      exact h.writeStatus (broadcastWrite txId attempts now) (fun _ => rfl) hx
  | markCompletedTransactionAsMinedUnconfirmed txId blockHeight blockHash now =>
      exact h.writeStatus (minedWrite txId blockHeight blockHash now) (fun _ => rfl) hx
  | markCompletedTransactionAsConfirmed txId confirmationHeight sentPayref now =>
      exact h.writeStatus (confirmedWrite txId confirmationHeight sentPayref now) (fun _ => rfl) hx

end Ledger.Within

/-! ## Calls -/

/-- All that a cycle has still to look at. -/
def PendingTransactionsByStatus.all (todo : PendingTransactionsByStatus) :
    List CompletedTransactionRow :=
  todo.completed ++ todo.broadcast ++ todo.minedUnconfirmed

/-- The transactions that a cycle has read and not finished. -/
def MonitorState.transactions : MonitorState → List CompletedTransactionRow
  | .list => []
  | .rebroadcast todo => todo.all
  | .submit tx _ todo => tx :: todo.all
  | .await tx _ _ todo => tx :: todo.all
  | .markRejected tx _ todo => tx :: todo.all
  | .unlock tx _ todo => tx :: todo.all
  | .recordRejected tx _ todo => tx :: todo.all
  | .markBroadcasted tx todo => tx :: todo.all
  | .recordBroadcast tx todo => tx :: todo.all
  | .checkMining todo => todo.all
  | .markMined tx _ _ todo => tx :: todo.all
  | .recordMined tx _ todo => tx :: todo.all
  | .checkConfirmation todo => todo.all
  | .recordConfirmed tx _ todo => tx :: todo.all
  | .ok => []
  | .failed _ => []

namespace Call

/-- The account that the call works for; the unlocker works for all. -/
def accountOf : Call → Option AccountId
  | .lock req _ => some req.selector.accountId
  | .start req _ => some req.accountId
  | .finalize prepared _ _ => some prepared.accountId
  | .unlocker _ => none
  | .monitor m _ => some m.accountId

/-- The outputs that the call has selected and not locked. -/
def selected : Call → List DbWalletOutput
  | .lock _ (.transaction selection) => selection.utxos
  | .start _ (.create _ selection) => selection.utxos
  | .start _ (.locking _ _ _ todo) => todo
  | _ => []

/-- The completed transaction that the call has created. -/
def createdTxId : Call → Option TxId
  | .finalize _ signed .connect => some signed.txId
  | .finalize _ signed (.submit _) => some signed.txId
  | .finalize _ signed (.await _ _) => some signed.txId
  | .finalize _ signed (.markRejected _ _) => some signed.txId
  | .finalize _ signed .markBroadcasted => some signed.txId
  | _ => none

/-- The completed transactions that the call monitors. -/
def monitored : Call → List CompletedTransactionRow
  | .monitor _ st => st.transactions
  | _ => []

/-- What the call has taken from the database is the account's. -/
structure OfAccount (db : Db) (a : AccountId) (c : Call) : Prop where
  pending : ∀ id ∈ c.pendingTxId,
    db.pendingTransactions.Owns PendingTransactionRow.accountId id a
  selected : ∀ u ∈ c.selected, db.outputs.Owns OutputRow.accountId u.id a
  created : ∀ id ∈ c.createdTxId,
    db.completedTransactions.Owns CompletedTransactionRow.accountId id a
  monitored : ∀ tx ∈ c.monitored,
    db.completedTransactions.Owns CompletedTransactionRow.accountId tx.id a ∧
      db.pendingTransactions.Owns PendingTransactionRow.accountId tx.pendingTxId a
  prepares : ∀ prepared ∈ c.prepares, prepared.accountId = a

end Call

section Calls

variable {env : TransactionEnv} {ch : Choice} {db db' : Db} {x : Statement} {c c' : Call}
  {a : AccountId}

/-- What belongs to an account goes on belonging to it. -/
theorem Call.OfAccount.ages (h : c.OfAccount db a) (hages : db.ledger.Ages db'.ledger) :
    c.OfAccount db' a where
  pending id hid := (h.pending id hid).retained hages.pending (fun _ _ hp => hp.accountId)
  selected u hu := (h.selected u hu).retained hages.outputs (fun _ _ ho => ho.columns.2.1)
  created id hid := (h.created id hid).retained hages.completed (fun _ _ hc => hc.columns.2)
  monitored tx htx := by
    obtain ⟨hcompleted, hpending⟩ := h.monitored tx htx
    exact ⟨hcompleted.retained hages.completed (fun _ _ hc => hc.columns.2),
      hpending.retained hages.pending (fun _ _ hp => hp.accountId)⟩
  prepares := h.prepares

theorem findPending_owns {key : IdempotencyKey} {pending : PendingTransaction}
    (h : db.findPendingTransactionByIdempotencyKey key a = some pending) :
    db.pendingTransactions.Owns PendingTransactionRow.accountId pending.id a := by
  obtain ⟨p, hp, rfl⟩ := Option.map_eq_some_iff.mp h
  obtain ⟨hp, hkey⟩ := Table.find?_some hp
  simp only [PendingTransactionRow.hasKey, Bool.and_eq_true, beq_iff_eq] at hkey
  exact ⟨p, hp, rfl, hkey.1.2⟩

theorem selected_owns {s : InputSelector} {st : Selecting} {selection : UtxoSelection}
    (h : s.step env db st = .ok (.inr selection)) :
    ∀ u ∈ selection.utxos, db.outputs.Owns OutputRow.accountId u.id s.accountId := by
  intro u hu
  obtain ⟨minHeight, total, hselect⟩ := InputSelector.step_inr h
  obtain ⟨o, ho, rfl⟩ := List.mem_map.mp (InputSelector.select_mem hselect u hu)
  obtain ⟨ho, hp⟩ := Table.mem_select.mp (mem_orderByDesc.mp ho)
  simp only [Bool.and_eq_true, beq_iff_eq] at hp
  exact ⟨o, ho, rfl, hp.1.1.1.1⟩

theorem createPending_owns {new : NewPendingTransaction} (hacc : new.accountId = a)
    (hc : db.createPending new = .ok db') :
    db'.pendingTransactions.Owns PendingTransactionRow.accountId new.id a := by
  obtain ⟨row, hid, hrow, -, -, -, pendingTransactions, hins, rfl⟩ := createPending_ok hc
  exact ⟨row, (Table.mem_insert? hins).mpr (Or.inr rfl), hid, hrow.trans hacc⟩

/-! One constructor for each kind of call, with what such a call can have taken. -/

theorem Call.OfAccount.lock {req : LockFundsRequest} {st : LockState}
    (hpending : ∀ id ∈ (Call.lock req st).pendingTxId,
      db.pendingTransactions.Owns PendingTransactionRow.accountId id a)
    (hselected : ∀ u ∈ (Call.lock req st).selected,
      db.outputs.Owns OutputRow.accountId u.id a) : (Call.lock req st).OfAccount db a :=
  ⟨hpending, hselected, by simp [Call.createdTxId], by simp [Call.monitored],
    by simp [Call.prepares]⟩

theorem Call.OfAccount.start {req : StartRequest} {st : StartState}
    (hpending : ∀ id ∈ (Call.start req st).pendingTxId,
      db.pendingTransactions.Owns PendingTransactionRow.accountId id a)
    (hselected : ∀ u ∈ (Call.start req st).selected,
      db.outputs.Owns OutputRow.accountId u.id a)
    (hprepares : ∀ prepared ∈ (Call.start req st).prepares, prepared.accountId = a) :
    (Call.start req st).OfAccount db a :=
  ⟨hpending, hselected, by simp [Call.createdTxId], by simp [Call.monitored], hprepares⟩

theorem Call.OfAccount.finalize {prepared : PreparedTransaction} {signed : SignedTransaction}
    {st : FinalizeState}
    (hpending : db.pendingTransactions.Owns PendingTransactionRow.accountId prepared.id a)
    (hcreated : ∀ id ∈ (Call.finalize prepared signed st).createdTxId,
      db.completedTransactions.Owns CompletedTransactionRow.accountId id a)
    (hacc : prepared.accountId = a) : (Call.finalize prepared signed st).OfAccount db a := by
  refine ⟨fun id hid => ?_, by simp [Call.selected], hcreated, by simp [Call.monitored],
    fun p hp => ?_⟩
  · cases hid
    exact hpending
  · cases hp
    exact hacc

theorem Call.OfAccount.monitor {m : TransactionMonitor} {st : MonitorState}
    (hmonitored : ∀ tx ∈ st.transactions,
      db.completedTransactions.Owns CompletedTransactionRow.accountId tx.id a ∧
        db.pendingTransactions.Owns PendingTransactionRow.accountId tx.pendingTxId a) :
    (Call.monitor m st).OfAccount db a :=
  ⟨by simp [Call.pendingTxId], by simp [Call.selected], by simp [Call.createdTxId], hmonitored,
    by simp [Call.prepares]⟩

theorem LockStep.ofAccount {req : LockFundsRequest} {st st' : LockState}
    (h : LockStep env ch db req st x st')
    (hc : (Call.lock req st).OfAccount db req.selector.accountId)
    (hages : db.ledger.Ages (x.apply db).ledger) :
    (Call.lock req st').OfAccount (x.apply db) req.selector.accountId := by
  have hkept := hc.ages hages
  cases h with
  | resume pending key hfind =>
      exact .lock (fun id hid => by cases hid; exact findPending_owns hfind) (by simp [Call.selected])
  | fetched pending result => exact .lock hkept.pending (by simp [Call.selected])
  | selected s selection hselect =>
      exact .lock (by simp [Call.pendingTxId]) (selected_owns hselect)
  | created new result db' hid hkey haccount hok =>
      refine .lock (fun id hid => ?_) (by simp [Call.selected])
      cases hid
      rw [apply_createPendingAndLock hok, lockOutputs_pendingTransactions]
      exact createPending_owns haccount hok
  | _ => exact .lock (by simp [Call.pendingTxId]) (by simp [Call.selected])

theorem StartStep.ofAccount {req : StartRequest} {st st' : StartState}
    (h : StartStep env ch db req st x st') (hc : (Call.start req st).OfAccount db req.accountId)
    (hages : db.ledger.Ages (x.apply db).ledger) :
    (Call.start req st').OfAccount (x.apply db) req.accountId := by
  have hkept := hc.ages hages
  have hafter : ∀ id utxos,
      (x.apply db).pendingTransactions.Owns PendingTransactionRow.accountId id req.accountId →
      (Call.start req (.afterLocking id utxos)).OfAccount (x.apply db) req.accountId := by
    intro id utxos hown
    unfold StartState.afterLocking
    split
    · exact .start (fun _ hid => by cases hid; exact hown) (by simp [Call.selected])
        (by simp [Call.prepares])
    · exact .start (fun _ hid => by cases hid; exact hown) (by simp [Call.selected])
        (by simp [Call.prepares])
  cases h with
  | resume pending hfind =>
      exact .start (fun id hid => by cases hid; exact findPending_owns hfind)
        (by simp [Call.selected]) (by simp [Call.prepares])
  | selected expiresAt s selection hselect =>
      exact .start (by simp [Call.pendingTxId]) (selected_owns hselect) (by simp [Call.prepares])
  | created new db' hid hkey haccount hok =>
      have hown := createPending_owns haccount hok
      rw [← apply_createPending hok] at hown
      split
      · exact .start (fun id hid => by cases hid; exact hown) (by simp [Call.selected])
          (by simp [Call.prepares])
      · exact .start (fun id hid => by cases hid; exact hown) hkept.selected
          (by simp [Call.prepares])
  | allLocked id expiresAt utxos => exact hafter id utxos (hkept.pending id rfl)
  | locked id expiresAt utxos rest utxo =>
      split
      · exact hafter id utxos (hkept.pending id rfl)
      · exact .start hkept.pending (fun u hu => hkept.selected u (List.mem_cons_of_mem _ hu))
          (by simp [Call.prepares])
  | fetched id => exact .start hkept.pending (by simp [Call.selected]) (by simp [Call.prepares])
  | built id selectedUtxos inputs prepared hid hinputs hkey haccount hcovered =>
      refine .start (fun id' hid' => ?_) (by simp [Call.selected])
        (fun prepared' hprepared => by cases hprepared; exact haccount)
      cases hid'
      exact hkept.pending _ (congrArg some hid.symm)
  | notBuilt id selectedUtxos inputs e =>
      exact .start hkept.pending (by simp [Call.selected]) (by simp [Call.prepares])
  | expired id e => exact .start hkept.pending (by simp [Call.selected]) (by simp [Call.prepares])
  | _ => exact .start (by simp [Call.pendingTxId]) (by simp [Call.selected]) (by simp [Call.prepares])

theorem createCompleted_owns {new : NewCompletedTransaction} (hacc : new.accountId = a)
    (hc : db.createCompleted new = .ok db') :
    db'.completedTransactions.Owns CompletedTransactionRow.accountId new.txId a := by
  unfold Db.createCompleted Db.createCompletedTransaction at hc
  split at hc
  · split at hc
    · cases hc
    · next completedTransactions hins =>
        cases hc
        exact ⟨_, (Table.mem_insert? hins).mpr (Or.inr rfl), rfl, hacc⟩
  · cases hc

/-- What `finalize` creates is of the account that it was prepared for. -/
theorem FinalizeState.next_creates {prepared : PreparedTransaction} {signed : SignedTransaction}
    {st st' : FinalizeState} {new : NewCompletedTransaction}
    (h : st.next ch db prepared signed = some (.createCompletedTransaction new, st')) :
    new.accountId = prepared.accountId ∧ new.pendingTxId = prepared.id := by
  cases st <;> simp only [FinalizeState.next] at h <;> (try split at h) <;> cases h <;>
    exact ⟨rfl, rfl⟩

theorem FinalizeState.ofAccount {prepared : PreparedTransaction} {signed : SignedTransaction}
    {st st' : FinalizeState} (h : st.next ch db prepared signed = some (x, st'))
    (hc : (Call.finalize prepared signed st).OfAccount db prepared.accountId)
    (hages : db.ledger.Ages (x.apply db).ledger) :
    (Call.finalize prepared signed st').OfAccount (x.apply db) prepared.accountId := by
  have hkept := hc.ages hages
  have hpending := hkept.pending prepared.id rfl
  cases FinalizeState.next_step h with
  | created new db' hid hnewPending htx hok =>
      refine .finalize hpending (fun id hid' => ?_) rfl
      cases hid'
      rw [apply_createCompleted hok, ← hid]
      exact createCompleted_owns (FinalizeState.next_creates h).1 hok
  | connected => exact .finalize hpending hkept.created rfl
  | _ => exact .finalize hpending (by simp [Call.createdTxId]) rfl

@[simp] theorem PendingTransactionsByStatus.mem_all {todo : PendingTransactionsByStatus}
    {tx : CompletedTransactionRow} : tx ∈ todo.all ↔
      tx ∈ todo.completed ∨ tx ∈ todo.broadcast ∨ tx ∈ todo.minedUnconfirmed := by
  simp [all]

/-- A cycle looks only at what it has read at its start. -/
theorem MonitorStep.transactions {m : TransactionMonitor} {st st' : MonitorState}
    (h : MonitorStep ch db m st x st') : ∀ tx ∈ st'.transactions,
      tx ∈ st.transactions ∨ tx ∈ db.getPendingCompletedTransactions m.accountId := by
  intro tx htx
  cases h with
  | list =>
      simp only [MonitorState.transactions, PendingTransactionsByStatus.mem_all,
        PendingTransactionsByStatus.fromTransactions, List.mem_filter] at htx
      tauto
  | done todo => simp [MonitorState.transactions] at htx
  | failed st e => simp [MonitorState.transactions] at htx
  | notRecorded st e y hy => simp [MonitorState.transactions] at htx
  | _ =>
      left
      simp_all only [MonitorState.transactions, PendingTransactionsByStatus.mem_all, List.mem_cons]
      try tauto

theorem MonitorStep.ofAccount {m : TransactionMonitor} {st st' : MonitorState}
    (h : MonitorStep ch db m st x st') (hsame : db.ledger.SameAccount)
    (hc : (Call.monitor m st).OfAccount db m.accountId)
    (hages : db.ledger.Ages (x.apply db).ledger) :
    (Call.monitor m st').OfAccount (x.apply db) m.accountId := by
  refine .ages (.monitor (fun tx htx => ?_)) hages
  rcases h.transactions tx htx with hold | hread
  · exact hc.monitored tx hold
  · obtain ⟨htx, hp⟩ := Table.mem_select.mp hread
    simp only [Bool.and_eq_true, beq_iff_eq] at hp
    have haccount : tx.accountId = m.accountId := hp.1.1.1
    exact ⟨⟨tx, htx, rfl, haccount⟩, haccount ▸ hsame.completed tx htx _ rfl⟩

/-- What a call has taken from the database is its account's after its next statement too. -/
theorem Call.next_ofAccount (h : c.next env ch db = some (x, c')) (hsame : db.ledger.SameAccount)
    (hc : ∀ a ∈ c.accountOf, c.OfAccount db a) (hages : db.ledger.Ages (x.apply db).ledger) :
    c'.accountOf = c.accountOf ∧ ∀ a ∈ c'.accountOf, c'.OfAccount (x.apply db) a := by
  cases c with
  | lock req st =>
      obtain ⟨⟨x', st'⟩, hst, heq⟩ := Option.map_eq_some_iff.mp h
      cases heq
      refine ⟨rfl, fun a ha => ?_⟩
      cases ha
      exact (LockState.next_step hst).ofAccount (hc _ rfl) hages
  | start req st =>
      obtain ⟨⟨x', st'⟩, hst, heq⟩ := Option.map_eq_some_iff.mp h
      cases heq
      refine ⟨rfl, fun a ha => ?_⟩
      cases ha
      exact (StartState.next_step hst).ofAccount (hc _ rfl) hages
  | finalize prepared signed st =>
      obtain ⟨⟨x', st'⟩, hst, heq⟩ := Option.map_eq_some_iff.mp h
      cases heq
      refine ⟨rfl, fun a ha => ?_⟩
      cases ha
      exact FinalizeState.ofAccount hst (hc _ rfl) hages
  | unlocker st =>
      obtain ⟨⟨x', st'⟩, hst, heq⟩ := Option.map_eq_some_iff.mp h
      cases heq
      exact ⟨rfl, fun a ha => by cases ha⟩
  | monitor m st =>
      obtain ⟨⟨x', st'⟩, hst, heq⟩ := Option.map_eq_some_iff.mp h
      cases heq
      refine ⟨rfl, fun a ha => ?_⟩
      cases ha
      exact (MonitorState.next_step hst).ofAccount hsame (hc _ rfl) hages

theorem LockStep.statementOf {req : LockFundsRequest} {st st' : LockState}
    (h : LockStep env ch db req st x st')
    (hc : (Call.lock req st).OfAccount db req.selector.accountId) :
    x.OfAccount db req.selector.accountId := by
  cases h with
  | created new result db' hid hkey haccount hok => exact fun _ _ => ⟨haccount, hc.selected⟩
  | notCreated new e herror => exact fun db' hok => by rw [herror] at hok; cases hok
  | _ => trivial

theorem StartStep.statementOf {req : StartRequest} {st st' : StartState}
    (h : StartStep env ch db req st x st')
    (hc : (Call.start req st).OfAccount db req.accountId) : x.OfAccount db req.accountId := by
  cases h with
  | created new db' hid hkey haccount hok => exact fun _ _ => haccount
  | notCreated new e herror => exact fun db' hok => by rw [herror] at hok; cases hok
  | locked id expiresAt utxos rest utxo =>
      exact ⟨hc.selected utxo List.mem_cons_self, hc.pending id rfl⟩
  | expired id e => exact fun p hp hid => (hc.pending id rfl).eq hp hid
  | unlocked id e => exact fun p hp hid => (hc.pending id rfl).eq hp hid
  | _ => trivial

theorem FinalizeState.statementOf {prepared : PreparedTransaction} {signed : SignedTransaction}
    {st st' : FinalizeState} (h : st.next ch db prepared signed = some (x, st'))
    (hc : (Call.finalize prepared signed st).OfAccount db prepared.accountId) :
    x.OfAccount db prepared.accountId := by
  have hpending := hc.pending prepared.id rfl
  cases FinalizeState.next_step h with
  | created new db' hid hnewPending htx hok =>
      exact ⟨(FinalizeState.next_creates h).1, hnewPending ▸ hpending⟩
  | notCreated new e herror =>
      obtain ⟨haccount, hnewPending⟩ := FinalizeState.next_creates h
      exact ⟨haccount, hnewPending ▸ hpending⟩
  | setExpired e => exact fun p hp hid => hpending.eq hp hid
  | setCompleted => exact fun p hp hid => hpending.eq hp hid
  | rejected reason e => exact fun c hc' hid => (hc.created _ rfl).eq hc' hid
  | broadcasted => exact fun c hc' hid => (hc.created _ rfl).eq hc' hid
  | expired e => exact fun p hp hid => hpending.eq hp hid
  | unlocked e => exact fun p hp hid => hpending.eq hp hid
  | _ => trivial

theorem MonitorStep.statementOf {m : TransactionMonitor} {st st' : MonitorState}
    (h : MonitorStep ch db m st x st') (hc : (Call.monitor m st).OfAccount db m.accountId) :
    x.OfAccount db m.accountId := by
  cases h with
  | rejected tx reason todo =>
      exact fun c hc' hid => (hc.monitored tx List.mem_cons_self).1.eq hc' hid
  | unlocked tx reason todo =>
      exact fun p hp hid => (hc.monitored tx List.mem_cons_self).2.eq hp hid
  | broadcasted tx todo =>
      exact fun c hc' hid => (hc.monitored tx List.mem_cons_self).1.eq hc' hid
  | markedMined tx blockHeight blockHash todo =>
      exact fun c hc' hid => (hc.monitored tx List.mem_cons_self).1.eq hc' hid
  | confirmed tx rest minedHeight sentPayref todo htodo =>
      have htx : tx ∈ (Call.monitor m (.checkConfirmation todo)).monitored := by
        simp [Call.monitored, MonitorState.transactions, htodo]
      exact fun c hc' hid => (hc.monitored tx htx).1.eq hc' hid
  | _ => trivial

/-- The next statement of a call is its account's; one of the unlocker is of the account whose
    transaction has expired. -/
theorem Call.next_statementOf (h : c.next env ch db = some (x, c'))
    (hc : ∀ a ∈ c.accountOf, c.OfAccount db a) :
    ∃ a, (∀ b ∈ c.accountOf, a = b) ∧ x.OfAccount db a := by
  cases c with
  | lock req st =>
      obtain ⟨⟨x', st'⟩, hst, heq⟩ := Option.map_eq_some_iff.mp h
      cases heq
      exact ⟨_, fun b hb => by cases hb; rfl, (LockState.next_step hst).statementOf (hc _ rfl)⟩
  | start req st =>
      obtain ⟨⟨x', st'⟩, hst, heq⟩ := Option.map_eq_some_iff.mp h
      cases heq
      exact ⟨_, fun b hb => by cases hb; rfl, (StartState.next_step hst).statementOf (hc _ rfl)⟩
  | finalize prepared signed st =>
      obtain ⟨⟨x', st'⟩, hst, heq⟩ := Option.map_eq_some_iff.mp h
      cases heq
      exact ⟨_, fun b hb => by cases hb; rfl, FinalizeState.statementOf hst (hc _ rfl)⟩
  | unlocker st =>
      obtain ⟨⟨x', st'⟩, hst, heq⟩ := Option.map_eq_some_iff.mp h
      cases heq
      cases UnlockerState.step_step hst with
      | list now => exact ⟨default, by simp [Call.accountOf], trivial⟩
      | expired id rest =>
          obtain ⟨a, ha⟩ :=
            Table.exists_owner PendingTransactionRow.accountId db.pendingTransactions id
          exact ⟨a, by simp [Call.accountOf], ha⟩
  | monitor m st =>
      obtain ⟨⟨x', st'⟩, hst, heq⟩ := Option.map_eq_some_iff.mp h
      cases heq
      exact ⟨_, fun b hb => by cases hb; rfl, (MonitorState.next_step hst).statementOf (hc _ rfl)⟩

end Calls

/-! ## Messages -/

theorem Call.accountOf_sent (c : Call) (messageId : Nat) :
    (c.sent messageId).accountOf = c.accountOf := by
  unfold Call.sent
  split <;> rfl

theorem Call.accountOf_received (c : Call) (result : Except String TxSubmissionResponse) :
    (c.received result).accountOf = c.accountOf := by
  unfold Call.received
  split <;> rfl

theorem Call.accountOf_retry {c c' : Call} (h : c.retry = some c') :
    c'.accountOf = c.accountOf := by
  unfold Call.retry at h
  split at h <;> cases h <;> rfl

section Messages

variable {db : Db} {a : AccountId} {c c' : Call}

theorem Call.OfAccount.sent (h : c.OfAccount db a) (messageId : Nat) :
    (c.sent messageId).OfAccount db a := by
  unfold Call.sent
  split <;> exact ⟨h.pending, h.selected, h.created, h.monitored, h.prepares⟩

theorem Call.OfAccount.retry (h : c.OfAccount db a) (hretry : c.retry = some c') :
    c'.OfAccount db a := by
  unfold Call.retry at hretry
  split at hretry <;> cases hretry <;>
    exact ⟨h.pending, h.selected, h.created, h.monitored, h.prepares⟩

theorem Call.OfAccount.received (h : c.OfAccount db a)
    (result : Except String TxSubmissionResponse) : (c.received result).OfAccount db a := by
  unfold Call.received
  split
  · next prepared signed retries messageId =>
      refine .finalize (h.pending _ rfl) (fun id hid => ?_) (h.prepares _ rfl)
      have hcreated := h.created signed.txId rfl
      unfold FinalizeState.ofResponse at hid
      split at hid
      · cases hid
        exact hcreated
      · split at hid
        · cases hid
          exact hcreated
        · split at hid <;> cases hid
          exact hcreated
  · next m tx retries messageId todo =>
      refine .monitor (fun tx' htx' => h.monitored tx' ?_)
      unfold MonitorState.ofResponse at htx'
      split at htx'
      · exact htx'
      · split at htx' <;> exact htx'
  · exact h

end Messages

/-! ## Burns -/

namespace BurnState

/-- The pending transaction that the burn has found. -/
def pendingTxId : BurnState → Option RequestId
  | .setCompleted id => some id
  | .createCompleted id => some id
  | _ => none

/-- The pending transaction that the burn has found is the account's. -/
def OfAccount (db : Db) (a : AccountId) (st : BurnState) : Prop :=
  ∀ id ∈ st.pendingTxId, db.pendingTransactions.Owns PendingTransactionRow.accountId id a

variable {ch : Choice} {db db' : Db} {result : BurnTxResult} {st st' : BurnState} {x : Statement}
  {a : AccountId}

theorem OfAccount.ages (h : st.OfAccount db a) (hages : db.ledger.Ages db'.ledger) :
    st.OfAccount db' a :=
  fun id hid => (h id hid).retained hages.pending (fun _ _ hp => hp.accountId)

theorem next_ofAccount (h : st.next ch db result = some (x, st'))
    (hst : st.OfAccount db result.accountId) (hages : db.ledger.Ages (x.apply db).ledger) :
    st'.OfAccount (x.apply db) result.accountId := by
  intro id hid
  cases st <;> simp only [next] at h
  case findPending =>
    split at h
    · next pending hfind =>
        cases h
        cases hid
        exact findPending_owns hfind
    · cases h
      cases hid
  case setCompleted pendingTxId =>
    cases h
    exact (hst.ages hages) id hid
  all_goals (try split at h) <;> cases h <;> cases hid

/-- The transaction that the burn marks as broadcast is not one of another account. -/
def TxIdApart (db : Db) (result : BurnTxResult) : BurnState → Prop
  | .markBroadcasted => ∀ c ∈ db.completedTransactions.rows, c.id = result.txId →
    c.accountId = result.accountId
  | _ => True

theorem next_statementOf (h : st.next ch db result = some (x, st'))
    (hst : st.OfAccount db result.accountId) :
    ∃ a, (st.TxIdApart db result → a = result.accountId) ∧ x.OfAccount db a := by
  cases st <;> simp only [next] at h
  case setCompleted pendingTxId =>
    cases h
    exact ⟨_, fun _ => rfl, fun p hp hid => (hst _ rfl).eq hp hid⟩
  case createCompleted pendingTxId =>
    cases h
    exact ⟨_, fun _ => rfl, rfl, hst _ rfl⟩
  case markBroadcasted =>
    cases h
    by_cases hapart : TxIdApart db result .markBroadcasted
    · exact ⟨_, fun _ => rfl, hapart⟩
    · obtain ⟨a, ha⟩ := Table.exists_owner CompletedTransactionRow.accountId
        db.completedTransactions result.txId
      exact ⟨a, fun h => absurd h hapart, ha⟩
  all_goals (try split at h) <;> cases h <;> exact ⟨_, fun _ => rfl, trivial⟩

end BurnState

/-! ## Runs -/

namespace BurnSystem

/-- The account that an action works for, if it is for one. -/
def accountOf (s : BurnSystem) : BurnAction → Option AccountId
  | .wallet (.statement i _) => s.wallet.calls[i]?.bind Call.accountOf
  | .wallet (.processBlock _ _ accountId _) => some accountId
  | .wallet (.rollbackFromHeight accountId _ _ _) => some accountId
  | .statement i _ => s.burns[i]?.map (·.1.accountId)
  | _ => none

/-- The condition on a step: a burn does not mark a transaction of another account, which could only
    have the id that the burn has drawn. -/
def TxIdApart (s : BurnSystem) : BurnAction → Prop
  | .statement i _ => ∀ b ∈ s.burns[i]?, b.2.TxIdApart s.wallet.db b.1
  | _ => True

/-- The references of the ledger are in their accounts, and so is what the calls and the burns have
    taken from it. -/
structure InAccounts (s : BurnSystem) : Prop where
  same : s.wallet.db.ledger.SameAccount
  calls : Each (fun _ c => ∀ a ∈ c.accountOf, c.OfAccount s.wallet.db a) s.wallet.calls
  burns : Each (fun _ b => b.2.OfAccount s.wallet.db b.1.accountId) s.burns

variable {env : TransactionEnv} {s s' : BurnSystem} {a : BurnAction}

end BurnSystem

/-- A step of the wallet changes the rows of one account, the one it works for. -/
theorem WalletSystem.step_within {env : TransactionEnv} {s s' : WalletSystem} {a : SystemAction}
    (hsame : s.db.ledger.SameAccount)
    (hcalls : Each (fun _ c => ∀ a ∈ c.accountOf, c.OfAccount s.db a) s.calls)
    (h : s.step env a = some s') :
    ∃ account, (∀ b ∈ BurnSystem.accountOf { wallet := s } (.wallet a), account = b) ∧
      s.db.ledger.Within account s'.db.ledger := by
  have hstays : ∀ (account : AccountId) (db : Db), db = s.db →
      s.db.ledger.Within account db.ledger := by
    intro account db heq
    rw [heq]
    exact ⟨hsame, .refl account _⟩
  cases a with
  | statement i ch =>
      obtain ⟨c, x, c', hc, hnext, hcall, rfl⟩ := step_statement h
      obtain ⟨account, hacc, hx⟩ := Call.next_statementOf hnext (hcalls i c hc)
      refine ⟨account, fun b hb => ?_, Ledger.Within.apply ⟨hsame, .refl account _⟩ hx
        (fun id status hsets hpending => ?_)⟩
      · obtain ⟨c₀, hc₀, hb⟩ := Option.bind_eq_some_iff.mp hb
        cases hc₀.symm.trans hc
        exact hacc b hb
      · rcases hcall.sets hsets with ⟨rfl, -⟩ | ⟨rfl, -⟩ <;> cases hpending
  | processBlock bp block accountId now =>
      obtain ⟨⟨outcome, db⟩, hrun, rfl⟩ := Option.map_eq_some_iff.mp h
      exact ⟨accountId, fun b hb => by cases hb; rfl, processBlock_within hsame hrun⟩
  | rollbackFromHeight accountId height webhookConfig now =>
      obtain ⟨⟨info, db⟩, hrun, rfl⟩ := Option.map_eq_some_iff.mp h
      exact ⟨accountId, fun b hb => by cases hb; rfl, rollbackFromHeight_within hsame hrun⟩
  | _ =>
      refine ⟨default, by simp [BurnSystem.accountOf], hstays default _ ?_⟩
      rcases step_db h with hdb | ⟨_, _, h'⟩ | ⟨_, _, _, _, h'⟩ | ⟨_, _, _, _, h'⟩
      · exact hdb
      all_goals cases h'

namespace BurnSystem

variable {env : TransactionEnv} {s s' : BurnSystem} {a : BurnAction}

/-- A step changes the rows of one account, the one it works for. -/
theorem step_within (h : InAccounts s) (hstep : s.step env a = some s') :
    ∃ account, (s.TxIdApart a → ∀ b ∈ s.accountOf a, account = b) ∧
      s.wallet.db.ledger.Within account s'.wallet.db.ledger := by
  rcases step_db hstep with ⟨b, rfl, hb⟩ |
    ⟨i, ch, result, st, x, st', rfl, hburn, hnext, hdb⟩ | ⟨hwallet, hstatement, hdb⟩
  · obtain ⟨account, hacc, hwithin⟩ := WalletSystem.step_within h.same h.calls hb
    refine ⟨account, fun _ a' ha' => hacc a' ?_, hwithin⟩
    cases b <;> exact ha'
  · obtain ⟨account, hacc, hx⟩ := BurnState.next_statementOf hnext (h.burns i _ hburn)
    rw [hdb]
    refine ⟨account, fun hapart b hb => ?_, Ledger.Within.apply ⟨h.same, .refl account _⟩ hx
      (fun id status hsets hpending => ?_)⟩
    · obtain ⟨p, hp, rfl⟩ := Option.map_eq_some_iff.mp hb
      cases hp.symm.trans hburn
      exact hacc (hapart _ hburn)
    · cases (BurnState.next_sets hnext hsets).symm.trans hpending
  · rw [hdb]
    refine ⟨default, fun _ b hb => ?_, h.same, .refl default _⟩
    cases a with
    | wallet b => exact absurd rfl (hwallet b)
    | statement i ch => exact absurd rfl (hstatement i ch)
    | _ => cases hb

/-- A burn that is moved has nothing from the database in its hands. -/
theorem Moved.pendingTxId {st st' : BurnState} (h : Moved st st') : st'.pendingTxId = none := by
  cases h with
  | send => rfl
  | respond retries messageId response =>
      unfold BurnState.ofResponse
      split
      · rfl
      · split <;> rfl
  | retry => rfl

/-- How a burn comes to be where it is: it was there, it has taken nothing from the database, or it
    has run a statement. -/
theorem step_burns (h : s.step env a = some s') {j : Nat} {b' : BurnTxResult × BurnState}
    (hj : s'.burns[j]? = some b') : s.burns[j]? = some b' ∨ b'.2.pendingTxId = none ∨
      ∃ ch st x, a = .statement j ch ∧ s.burns[j]? = some (b'.1, st) ∧
        st.next ch s.wallet.db b'.1 = some (x, b'.2) ∧ s'.wallet.db = x.apply s.wallet.db := by
  cases a with
  | wallet b =>
      obtain ⟨w, -, rfl⟩ := Option.map_eq_some_iff.mp h
      exact Or.inl hj
  | burn lockCall kernelExcess outputHash txId =>
      obtain ⟨result, -, rfl⟩ := Option.map_eq_some_iff.mp h
      rcases getElem?_append_cases hj with hold | ⟨rfl, rfl⟩
      · exact Or.inl hold
      · exact Or.inr (Or.inl rfl)
  | statement i ch =>
      obtain ⟨⟨result, st⟩, hburn, h⟩ := Option.bind_eq_some_iff.mp h
      obtain ⟨⟨x, st'⟩, hnext, rfl⟩ := Option.map_eq_some_iff.mp h
      rcases getElem?_set_cases hj with ⟨rfl, rfl⟩ | ⟨-, hold⟩
      · exact Or.inr (Or.inr ⟨ch, st, x, rfl, hburn, hnext, rfl⟩)
      · exact Or.inl hold
  | send | receive | transportError =>
      obtain ⟨_, _, _, st', -, hmoved, hburns, -⟩ := step_moved h (by simp) (by simp) (by simp)
      rw [hburns] at hj
      rcases getElem?_set_cases hj with ⟨-, rfl⟩ | ⟨-, hold⟩
      · exact Or.inr (Or.inl hmoved.pendingTxId)
      · exact Or.inl hold

theorem calls_ofAccount {w w' : WalletSystem} {b : SystemAction}
    (hsame : w.db.ledger.SameAccount)
    (hcalls : Each (fun _ c => ∀ a ∈ c.accountOf, c.OfAccount w.db a) w.calls)
    (hstep : w.step env b = some w') :
    Each (fun _ c => ∀ a ∈ c.accountOf, c.OfAccount w'.db a) w'.calls := by
  have hages := WalletSystem.ages_step hstep
  intro j c' hj
  cases WalletSystem.step_calls hstep hj with
  | stay hc => exact fun a ha => (hcalls j c' hc a ha).ages hages
  | statement hc hcall hdb =>
      obtain ⟨c, x, c'', hc, hnext, -, rfl⟩ := WalletSystem.step_statement hstep
      rcases getElem?_set_cases hj with ⟨-, rfl⟩ | ⟨hne, -⟩
      · exact (Call.next_ofAccount hnext hsame (hcalls j c hc) hages).2
      · exact absurd rfl hne
  | send hc hsend =>
      rw [Call.accountOf_sent]
      exact fun a ha => ((hcalls j _ hc a ha).ages hages).sent _
  | receive hc hawait hresult =>
      rw [Call.accountOf_received]
      exact fun a ha => ((hcalls j _ hc a ha).ages hages).received _
  | retry hc hretry =>
      rw [Call.accountOf_retry hretry]
      exact fun a ha => ((hcalls j _ hc a ha).ages hages).retry hretry
  | fail hc hawait =>
      rw [Call.accountOf_received]
      exact fun a ha => ((hcalls j _ hc a ha).ages hages).received _
  | lock req =>
      exact fun a _ => .lock (by simp [Call.pendingTxId]) (by simp [Call.selected])
  | start req =>
      exact fun a _ => .start (by simp [Call.pendingTxId]) (by simp [Call.selected])
        (by simp [Call.prepares])
  | finalize kernelExcess sentOutputHash displayed hc =>
      intro a ha
      cases ha
      have hstart := (hcalls _ _ hc _ rfl).ages hages
      have hacc := hstart.prepares _ rfl
      rw [hacc]
      exact .finalize (hstart.pending _ rfl) (by simp [Call.createdTxId]) hacc
  | unlocker => exact fun a ha => by cases ha
  | monitor m => exact fun a _ => .monitor (by simp [MonitorState.transactions])

theorem inAccounts_step (h : InAccounts s) (hstep : s.step env a = some s') : InAccounts s' where
  same := by
    obtain ⟨account, -, hwithin⟩ := step_within h hstep
    exact hwithin.same
  calls := by
    by_cases ha : ∃ b, a = .wallet b
    · obtain ⟨b, rfl⟩ := ha
      obtain ⟨w, hw, rfl⟩ := Option.map_eq_some_iff.mp hstep
      exact calls_ofAccount h.same h.calls hw
    · rw [step_calls hstep (fun b hb => ha ⟨b, hb⟩)]
      exact fun j c hj account hacc => (h.calls j c hj account hacc).ages (ages_step hstep)
  burns := by
    intro j b' hj
    rcases step_burns hstep hj with hold | hnone | ⟨ch, st, x, -, hburn, hnext, hdb⟩
    · exact (h.burns j b' hold).ages (ages_step hstep)
    · intro id hid
      rw [hnone] at hid
      cases hid
    · have hages := ages_step hstep
      rw [hdb] at hages ⊢
      exact BurnState.next_ofAccount hnext (h.burns j _ hburn) hages

theorem inAccounts_empty : InAccounts { wallet := { db := Db.empty } } where
  same := {
    hashes := fun o ho => by cases ho
    inputs := fun i hi => by cases hi
    credits := fun b hb => by cases hb
    debits := fun b hb => by cases hb
    reversals := fun b hb => by cases hb
    locks := fun o ho => by cases ho
    completed := fun c hc => by cases hc }
  calls := each_nil
  burns := each_nil

theorem inAccounts_of_run {as : List BurnAction}
    (hrun : Transition.run (BurnSystem.step env) { wallet := { db := Db.empty } } as = some s) :
    InAccounts s :=
  Transition.inv_of_steps (fun _ _ _ => inAccounts_step) inAccounts_empty hrun

end BurnSystem

/-- In every state that the wallet reaches, by calls, burns, blocks and rollbacks in any order, no
    reference leaves its account: what an input spends, a balance change books or undoes, an output
    is locked for and a completed transaction completes is there, in the same account. -/
theorem references_within_accounts (env : TransactionEnv) {s : BurnSystem} {as : List BurnAction}
    (hrun : Transition.run (BurnSystem.step env) { wallet := { db := Db.empty } } as = some s) :
    s.wallet.db.ledger.SameAccount :=
  (BurnSystem.inAccounts_of_run hrun).same

/-- A block that pays accounts 1 and 2, processed for both. -/
def bothFunded : List BurnAction :=
  let bp := BlockProcessor.withEventSender [(1, 7), (2, 8)] 3
  let block : BlockScanResult := ⟨1, 101, [(500, { outputHash := 500, value := 100000 }, 0),
    (501, { outputHash := 501, value := 90000 }, 0), (600, { outputHash := 600, value := 70 }, 1)],
    [], 1000⟩
  [.wallet (.processBlock bp block 1 1000), .wallet (.processBlock bp block 2 1000)]

/-- Account 1 pays, and what it sent is mined, rolled back and confirmed late. -/
theorem bothFunded_sameAccount : ∃ s, Transition.run (BurnSystem.step plainTransactionEnv)
    { wallet := { db := Db.empty } } (bothFunded ++ confirmedAfterRollback.map .wallet) = some s ∧
    s.wallet.db.ledger.SameAccount := by
  obtain ⟨s, hrun, -⟩ := Transition.exists_run_of_any (f := BurnSystem.step plainTransactionEnv)
    (s := { wallet := { db := Db.empty } }) (l := bothFunded ++ confirmedAfterRollback.map .wallet)
    (q := fun s => s.wallet.db.completedTransactions.rows.length == 1) (by decide +kernel)
  exact ⟨s, hrun, references_within_accounts plainTransactionEnv hrun⟩

/-- In every such state, a step for an account leaves the rows of all other accounts as they are,
    and their balances; and a step of the unlocker those of all accounts but one. -/
theorem step_leaves_other_accounts (env : TransactionEnv) {s s' : BurnSystem}
    {as : List BurnAction} {a : BurnAction}
    (hrun : Transition.run (BurnSystem.step env) { wallet := { db := Db.empty } } as = some s)
    (hstep : s.step env a = some s') (hapart : s.TxIdApart a) :
    ∃ account, (∀ b ∈ s.accountOf a, account = b) ∧ ∀ other, other ≠ account →
      s'.wallet.db.ledger.rowsOf other = s.wallet.db.ledger.rowsOf other ∧
      (runOk (getBalance other) s'.wallet.db).map (·.1) =
        (runOk (getBalance other) s.wallet.db).map (·.1) := by
  obtain ⟨account, hacc, hwithin⟩ :=
    BurnSystem.step_within (BurnSystem.inAccounts_of_run hrun) hstep
  exact ⟨account, hacc hapart, fun other hne =>
    ⟨hwithin.leaves other hne, getBalance_of_leaves hwithin.leaves hne⟩⟩

/-- Account 1 is rolled back to its beginning; account 2 keeps its output. -/
theorem bothFunded_rollback_leaves : ∃ s s', Transition.run (BurnSystem.step plainTransactionEnv)
    { wallet := { db := Db.empty } } bothFunded = some s ∧
    s.step plainTransactionEnv (.wallet (.rollbackFromHeight 1 1 none 5)) = some s' ∧
    s'.wallet.db.ledger.rowsOf 2 = s.wallet.db.ledger.rowsOf 2 := by
  obtain ⟨s, hrun, hstep⟩ := Transition.exists_run_of_any (f := BurnSystem.step plainTransactionEnv)
    (s := { wallet := { db := Db.empty } }) (l := bothFunded)
    (q := fun s => (s.step plainTransactionEnv (.wallet (.rollbackFromHeight 1 1 none 5))).isSome)
    (by decide +kernel)
  obtain ⟨s', hstep⟩ := Option.isSome_iff_exists.mp hstep
  obtain ⟨account, hacc, hleaves⟩ := step_leaves_other_accounts plainTransactionEnv hrun hstep trivial
  obtain rfl := hacc 1 rfl
  exact ⟨s, s', hrun, hstep, (hleaves 2 (by decide)).1⟩

end MinotariWallet
