import MinotariWallet.Transactions.System

set_option autoImplicit false

/-! # Locks and pending transactions under single statements

What the statements do to the locks of a pending transaction and to its status. -/

namespace MinotariWallet

open Sql Exec

/-- The output is `LOCKED` for the request. -/
def LockedBy (outputs : AutoTable OutputRow) (req : RequestId) (outputId : Id) : Prop :=
  ∃ o ∈ outputs.rows, o.id = outputId ∧ o.status = .locked ∧ o.lockedByRequestId = some req

/-- `lock_output` would leave the output locked for the request: it is `UNSPENT`, or already locked
    for this request. -/
def Lockable (outputs : AutoTable OutputRow) (req : RequestId) (outputId : Id) : Prop :=
  (∃ o ∈ outputs.rows, o.id = outputId ∧ o.status = .unspent) ∨ LockedBy outputs req outputId

/-- The pending transaction exists and has the status. -/
def HasStatus (pendingTransactions : Table PendingTransactionRow) (id : RequestId)
    (status : PendingTransactionStatus) : Prop :=
  ∃ p ∈ pendingTransactions.rows, p.id = id ∧ p.status = status

/-- The pending transaction exists. -/
def PendingExists (pendingTransactions : Table PendingTransactionRow) (id : RequestId) : Prop :=
  ∃ p ∈ pendingTransactions.rows, p.id = id

instance (outputs : AutoTable OutputRow) (req : RequestId) (outputId : Id) :
    Decidable (LockedBy outputs req outputId) := by
  unfold LockedBy; infer_instance

instance (outputs : AutoTable OutputRow) (req : RequestId) (outputId : Id) :
    Decidable (Lockable outputs req outputId) := by
  unfold Lockable; infer_instance

instance (pendingTransactions : Table PendingTransactionRow) (id : RequestId)
    (status : PendingTransactionStatus) : Decidable (HasStatus pendingTransactions id status) := by
  unfold HasStatus; infer_instance

/-- The pending transaction whose outputs the statement unlocks. -/
def Statement.unlocks : Statement → Option RequestId
  | .unlockOutputsForRequest id => some id
  | .expireAndUnlock id => some id
  | _ => none

/-- The pending transaction whose status the statement sets. -/
def Statement.sets : Statement → Option (RequestId × PendingTransactionStatus)
  | .updatePendingTransactionStatus id status => some (id, status)
  | .expireAndUnlock id => some (id, .expired)
  | _ => none

/-! ## Outputs -/

/-- An output locked for two requests is locked for one. -/
theorem LockedBy.unique {outputs : AutoTable OutputRow} {req req' : RequestId} {outputId : Id}
    (h : LockedBy outputs req outputId) (h' : LockedBy outputs req' outputId) : req = req' := by
  obtain ⟨o, ho, hid, -, hreq⟩ := h
  obtain ⟨o', ho', hid', -, hreq'⟩ := h'
  obtain rfl : o = o' := outputs.eq_of_key_eq ho ho' (hid.trans hid'.symm)
  exact Option.some.inj (hreq.symm.trans hreq')

theorem mem_lockOutput {db : Db} {outputId : Id} {req : RequestId} {now : Timestamp}
    {o' : OutputRow} : o' ∈ (db.lockOutput outputId req now).outputs.rows ↔
      ∃ o ∈ db.outputs.rows, o' = if o.id = outputId ∧ o.status = .unspent then
        { o with status := .locked, lockedByRequestId := some req, lockedAt := some now } else o := by
  refine (AutoTable.mem_updateWhere (by intro _; rfl)).trans ?_
  refine exists_congr (fun o => and_congr_right (fun _ => ?_))
  rw [eq_comm]
  simp only [Bool.and_eq_true, beq_iff_eq]

theorem LockedBy.lockOutput {db : Db} {req : RequestId} {id : Id} (h : LockedBy db.outputs req id)
    (outputId : Id) (req' : RequestId) (now : Timestamp) :
    LockedBy (db.lockOutput outputId req' now).outputs req id := by
  obtain ⟨o, ho, hid, hstatus, hreq⟩ := h
  exact ⟨o, mem_lockOutput.mpr ⟨o, ho, by simp [hstatus]⟩, hid, hstatus, hreq⟩

/-- `lock_output` on a lockable output. -/
theorem Lockable.lockedBy {db : Db} {req : RequestId} {id : Id} (h : Lockable db.outputs req id)
    (now : Timestamp) : LockedBy (db.lockOutput id req now).outputs req id := by
  rcases h with ⟨o, ho, hid, hstatus⟩ | h
  · exact ⟨_, mem_lockOutput.mpr ⟨o, ho, rfl⟩, by simp [hid, hstatus]⟩
  · exact h.lockOutput id req now

theorem Lockable.lockOutput {db : Db} {req : RequestId} {id : Id} (h : Lockable db.outputs req id)
    (outputId : Id) (now : Timestamp) :
    Lockable (db.lockOutput outputId req now).outputs req id := by
  by_cases hid : id = outputId
  · exact Or.inr (hid ▸ h.lockedBy now)
  · rcases h with ⟨o, ho, hoid, hstatus⟩ | h
    · have hne : o.id ≠ outputId := fun he => hid (hoid.symm.trans he)
      exact Or.inl ⟨o, mem_lockOutput.mpr ⟨o, ho, by simp [hne]⟩, hoid, hstatus⟩
    · exact Or.inr (h.lockOutput outputId req now)

theorem LockedBy.lockOutputs {db : Db} {req : RequestId} {id : Id} (h : LockedBy db.outputs req id)
    (utxos : List DbWalletOutput) (req' : RequestId) (now : Timestamp) :
    LockedBy (db.lockOutputs utxos req' now).outputs req id := by
  induction utxos generalizing db with
  | nil => exact h
  | cons u rest ih => exact ih (h.lockOutput u.id req' now)

/-- The loop locks every output that was lockable. -/
theorem lockOutputs_lockedBy {db : Db} {req : RequestId} (utxos : List DbWalletOutput)
    (h : ∀ u ∈ utxos, Lockable db.outputs req u.id) (now : Timestamp) :
    ∀ u ∈ utxos, LockedBy (db.lockOutputs utxos req now).outputs req u.id := by
  induction utxos generalizing db with
  | nil => intro u hu; cases hu
  | cons v rest ih =>
      have hrest : ∀ u ∈ rest,
          LockedBy ((db.lockOutput v.id req now).lockOutputs rest req now).outputs req u.id :=
        ih (fun u hu => (h u (List.mem_cons_of_mem _ hu)).lockOutput v.id now)
      intro u hu
      rcases List.mem_cons.mp hu with rfl | hu
      · exact ((h u List.mem_cons_self).lockedBy now).lockOutputs rest req now
      · exact hrest u hu

theorem LockedBy.unlockOutputsForRequest {db : Db} {req req' : RequestId} {id : Id}
    (h : LockedBy db.outputs req id) (hne : req' ≠ req) :
    LockedBy (db.unlockOutputsForRequest req').outputs req id := by
  obtain ⟨o, ho, hid, hstatus, hreq⟩ := h
  refine ⟨o, (AutoTable.mem_updateWhere _).mpr ⟨o, ho, ?_⟩, hid, hstatus, hreq⟩
  simp [hreq, Ne.symm hne]

/-- A rollback leaves locks alone. -/
theorem LockedBy.setOutputsDeleted {db : Db} {req : RequestId} {id : Id}
    (h : LockedBy db.outputs req id) (accountId : AccountId) (height : Nat) (now : Timestamp) :
    LockedBy (db.setOutputsDeleted accountId height now).outputs req id := by
  obtain ⟨o, ho, hlock⟩ := h
  refine ⟨_, (AutoTable.mem_updateWhere _).mpr ⟨o, ho, rfl⟩, ?_⟩
  split <;> exact hlock

theorem lockOutputs_pendingTransactions (db : Db) (utxos : List DbWalletOutput) (req : RequestId)
    (now : Timestamp) :
    (db.lockOutputs utxos req now).pendingTransactions = db.pendingTransactions := by
  induction utxos generalizing db with
  | nil => rfl
  | cons u rest ih => exact ih _

theorem lockOutputs_completedTransactions (db : Db) (utxos : List DbWalletOutput)
    (req : RequestId) (now : Timestamp) :
    (db.lockOutputs utxos req now).completedTransactions = db.completedTransactions := by
  induction utxos generalizing db with
  | nil => rfl
  | cons u rest ih => exact ih _

/-! ## Pending transactions -/

theorem createPending_ok {db db' : Db} {new : NewPendingTransaction}
    (h : db.createPending new = .ok db') :
    ∃ row : PendingTransactionRow, row.id = new.id ∧ row.accountId = new.accountId ∧
      row.idempotencyKey = new.idempotencyKey ∧ row.status = .pending ∧
      (∀ p ∈ db.pendingTransactions.rows, p.hasKey new.idempotencyKey new.accountId = false) ∧
      ∃ pendingTransactions, db.pendingTransactions.insert? row = some pendingTransactions ∧
        db' = { db with pendingTransactions } := by
  unfold Db.createPending Db.createPendingTransaction at h
  split at h
  · cases h
  · next hkey =>
      split at h
      · cases h
      · next pendingTransactions hins =>
          cases h
          exact ⟨_, rfl, rfl, rfl, rfl,
            by simpa using hkey, _, hins, rfl⟩

theorem HasStatus.recorded {pendingTransactions : Table PendingTransactionRow} {id : RequestId}
    {status : PendingTransactionStatus} (h : HasStatus pendingTransactions id status) :
    PendingExists pendingTransactions id := by
  obtain ⟨p, hp, hid, -⟩ := h
  exact ⟨p, hp, hid⟩

theorem PendingExists.hasStatus {pendingTransactions : Table PendingTransactionRow} {id : RequestId}
    (h : PendingExists pendingTransactions id) : ∃ status, HasStatus pendingTransactions id status := by
  obtain ⟨p, hp, hid⟩ := h
  exact ⟨p.status, p, hp, hid, rfl⟩

theorem HasStatus.unique {pendingTransactions : Table PendingTransactionRow} {id : RequestId}
    {status status' : PendingTransactionStatus} (h : HasStatus pendingTransactions id status)
    (h' : HasStatus pendingTransactions id status') : status = status' := by
  obtain ⟨p, hp, hid, rfl⟩ := h
  obtain ⟨p', hp', hid', rfl⟩ := h'
  rw [pendingTransactions.eq_of_key_eq hp hp' (hid.trans hid'.symm)]

theorem hasStatus_insert {t t' : Table PendingTransactionRow} {row : PendingTransactionRow}
    (h : t.insert? row = some t') (id : RequestId) (status : PendingTransactionStatus) :
    HasStatus t' id status ↔ HasStatus t id status ∨ (row.id = id ∧ row.status = status) := by
  unfold HasStatus
  constructor
  · rintro ⟨p, hp, hrest⟩
    rcases (Table.mem_insert? h).mp hp with hp | rfl
    · exact Or.inl ⟨p, hp, hrest⟩
    · exact Or.inr hrest
  · rintro (⟨p, hp, hrest⟩ | hrest)
    · exact ⟨p, (Table.mem_insert? h).mpr (Or.inl hp), hrest⟩
    · exact ⟨row, (Table.mem_insert? h).mpr (Or.inr rfl), hrest⟩

/-- An `UPDATE` of the status, selected by id. -/
theorem hasStatus_updateWhere (t : Table PendingTransactionRow) (sel : RequestId → Bool)
    (id : RequestId) (status status' : PendingTransactionStatus) :
    HasStatus (t.updateWhere (fun p => sel p.id) (fun p => { p with status := status' })) id status ↔
      if sel id = true then status' = status ∧ PendingExists t id else HasStatus t id status := by
  unfold HasStatus
  constructor
  · rintro ⟨p', hp', hid, hstatus⟩
    obtain ⟨p, hp, rfl⟩ := (Table.mem_updateWhere (by intro _; rfl)).mp hp'
    by_cases h : sel p.id = true
    · simp only [h, if_true] at hid hstatus
      rw [if_pos (hid ▸ h)]
      exact ⟨hstatus, p, hp, hid⟩
    · simp only [h] at hid hstatus
      rw [if_neg (hid ▸ h)]
      exact ⟨p, hp, hid, hstatus⟩
  · intro h
    by_cases he : sel id = true
    · rw [if_pos he] at h
      obtain ⟨hstatus, p, hp, rfl⟩ := h
      exact ⟨_, (Table.mem_updateWhere (by intro _; rfl)).mpr ⟨p, hp, rfl⟩, by rw [if_pos he],
        by rw [if_pos he]; exact hstatus⟩
    · rw [if_neg he] at h
      obtain ⟨p, hp, rfl, hstatus⟩ := h
      exact ⟨p, (Table.mem_updateWhere (by intro _; rfl)).mpr ⟨p, hp, if_neg he⟩, rfl, hstatus⟩

theorem hasStatus_update {db : Db} (id id' : RequestId) (status status' : PendingTransactionStatus) :
    HasStatus (db.updatePendingTransactionStatus id' status').pendingTransactions id status ↔
      if id = id' then status' = status ∧ PendingExists db.pendingTransactions id
      else HasStatus db.pendingTransactions id status := by
  refine (hasStatus_updateWhere _ (fun i => i == id') id status status').trans ?_
  simp only [beq_iff_eq]

theorem hasStatus_cancel {db : Db} (id : RequestId) (ids : List RequestId)
    (status status' : PendingTransactionStatus) :
    HasStatus (db.cancelPendingTransactionsByIds ids status').pendingTransactions id status ↔
      if id ∈ ids then status' = status ∧ PendingExists db.pendingTransactions id
      else HasStatus db.pendingTransactions id status := by
  refine (hasStatus_updateWhere _ (fun i => ids.contains i) id status status').trans ?_
  simp only [List.contains_iff_mem]

theorem PendingExists.update {db : Db} {id : RequestId} (h : PendingExists db.pendingTransactions id)
    (id' : RequestId) (status : PendingTransactionStatus) :
    PendingExists (db.updatePendingTransactionStatus id' status).pendingTransactions id := by
  obtain ⟨p, hp, hid⟩ := h
  refine ⟨_, (Table.mem_updateWhere (by intro _; rfl)).mpr ⟨p, hp, rfl⟩, ?_⟩
  split <;> exact hid

theorem PendingExists.cancel {db : Db} {id : RequestId} (h : PendingExists db.pendingTransactions id)
    (ids : List RequestId) (status : PendingTransactionStatus) :
    PendingExists (db.cancelPendingTransactionsByIds ids status).pendingTransactions id := by
  obtain ⟨p, hp, hid⟩ := h
  refine ⟨_, (Table.mem_updateWhere (by intro _; rfl)).mpr ⟨p, hp, rfl⟩, ?_⟩
  split <;> exact hid

/-- A created pending transaction is new, and `Pending`. -/
theorem createPending_hasStatus {db db' : Db} {new : NewPendingTransaction}
    (h : db.createPending new = .ok db') (id : RequestId) (status : PendingTransactionStatus) :
    HasStatus db'.pendingTransactions id status ↔
      HasStatus db.pendingTransactions id status ∨ (new.id = id ∧ .pending = status) := by
  obtain ⟨row, hid, -, -, hstatus, -, _, hins, rfl⟩ := createPending_ok h
  rw [hasStatus_insert hins, hid, hstatus]

theorem createPending_fresh {db db' : Db} {new : NewPendingTransaction}
    (h : db.createPending new = .ok db') : ¬PendingExists db.pendingTransactions new.id := by
  obtain ⟨row, hid, -, -, -, -, _, hins, -⟩ := createPending_ok h
  rintro ⟨p, hp, hpid⟩
  exact (Table.insert?_some hins).2 p hp (hpid.trans hid.symm)

/-! ## Statements -/

theorem record_ledger {x : DbM Unit} (h : Keeps Db.ledger x) (db : Db) :
    (after x ⟨db, none⟩).store.ledger = db.ledger := h ⟨db, none⟩

theorem createPending_outputs {db db' : Db} {new : NewPendingTransaction}
    (h : db.createPending new = .ok db') : db'.outputs = db.outputs := by
  obtain ⟨_, -, -, -, -, -, _, -, rfl⟩ := createPending_ok h
  rfl

theorem createCompleted_ok {db db' : Db} {new : NewCompletedTransaction}
    (h : db.createCompleted new = .ok db') :
    ∃ row : CompletedTransactionRow, row.id = new.txId ∧ row.pendingTxId = new.pendingTxId ∧
      row.status = .completed ∧ row.serializedTransaction = new.serializedTransaction ∧
      row.broadcastAttempts = 0 ∧
      ∃ completedTransactions, db.completedTransactions.insert? row = some completedTransactions ∧
        db' = { db with completedTransactions } := by
  unfold Db.createCompleted Db.createCompletedTransaction at h
  split at h
  · split at h
    · cases h
    · next completedTransactions hins =>
        cases h
        exact ⟨_, rfl, rfl, rfl, rfl, rfl, _, hins, rfl⟩
  · cases h

theorem apply_createPending {db db' : Db} {new : NewPendingTransaction}
    (h : db.createPending new = .ok db') :
    (Statement.createPendingTransaction new).apply db = db' := by
  simp [Statement.apply, h, Except.toOption]

theorem apply_createPendingAndLock {db db' : Db} {new : NewPendingTransaction}
    (h : db.createPending new = .ok db') :
    (Statement.createPendingTransactionAndLock new).apply db =
      db'.lockOutputs new.selection.utxos new.id new.expiresAt := by
  simp [Statement.apply, Db.createPendingAndLock, h, Except.toOption, Except.map]

theorem apply_createCompleted {db db' : Db} {new : NewCompletedTransaction}
    (h : db.createCompleted new = .ok db') :
    (Statement.createCompletedTransaction new).apply db = db' := by
  simp [Statement.apply, h, Except.toOption]

/-- Locks stay unless they are the ones that the statement unlocks. -/
theorem LockedBy.apply {db : Db} {req : RequestId} {id : Id} (h : LockedBy db.outputs req id)
    (x : Statement) (hx : x.unlocks ≠ some req) : LockedBy (x.apply db).outputs req id := by
  cases x with
  | record x hkeeps =>
      have hout : (Statement.apply db (.record x hkeeps)).outputs = db.outputs :=
        congrArg Ledger.outputs (record_ledger hkeeps db)
      rw [hout]
      exact h
  | createPendingTransaction new =>
      cases hc : db.createPending new with
      | error e => simpa [Statement.apply, hc, Except.toOption] using h
      | ok db' => rwa [apply_createPending hc, createPending_outputs hc]
  | createPendingTransactionAndLock new =>
      cases hc : db.createPending new with
      | error e =>
          simpa [Statement.apply, Db.createPendingAndLock, hc, Except.toOption, Except.map] using h
      | ok db' =>
          rw [← createPending_outputs hc] at h
          rw [apply_createPendingAndLock hc]
          exact h.lockOutputs new.selection.utxos new.id new.expiresAt
  | lockOutput outputId req' now => exact h.lockOutput outputId req' now
  | unlockOutputsForRequest req' =>
      exact h.unlockOutputsForRequest (fun he => hx (congrArg some he))
  | expireAndUnlock req' =>
      have hl : LockedBy (db.updatePendingTransactionStatus req' .expired).outputs req id := h
      exact hl.unlockOutputsForRequest (fun he => hx (congrArg some he))
  | createCompletedTransaction new =>
      cases hc : db.createCompleted new with
      | error e => simpa [Statement.apply, hc, Except.toOption] using h
      | ok db' =>
          rw [apply_createCompleted hc]
          obtain ⟨_, -, -, -, -, -, _, -, rfl⟩ := createCompleted_ok hc
          exact h
  | read => exact h
  | updatePendingTransactionStatus id status => exact h
  | markCompletedTransactionAsRejected txId reason now => exact h
  | markCompletedTransactionAsBroadcasted txId attempts now => exact h
  | markCompletedTransactionAsMinedUnconfirmed txId blockHeight blockHash now => exact h
  | markCompletedTransactionAsConfirmed txId confirmationHeight sentPayref now => exact h

/-- What a statement does to the pending transactions. -/
theorem apply_pendingTransactions (db : Db) (x : Statement) :
    (x.apply db).pendingTransactions = db.pendingTransactions ∨
      (∃ new db', db.createPending new = .ok db' ∧
        (x.apply db).pendingTransactions = db'.pendingTransactions) ∨
      ∃ id status, x.sets = some (id, status) ∧ (x.apply db).pendingTransactions =
        (db.updatePendingTransactionStatus id status).pendingTransactions := by
  cases x with
  | record x hkeeps =>
      exact Or.inl (congrArg Ledger.pendingTransactions (record_ledger hkeeps db))
  | createPendingTransaction new =>
      cases hc : db.createPending new with
      | error e => exact Or.inl (by simp [Statement.apply, hc, Except.toOption])
      | ok db' => exact Or.inr (Or.inl ⟨new, db', hc, by rw [apply_createPending hc]⟩)
  | createPendingTransactionAndLock new =>
      cases hc : db.createPending new with
      | error e =>
          refine Or.inl ?_
          simp [Statement.apply, Db.createPendingAndLock, hc, Except.toOption, Except.map]
      | ok db' =>
          refine Or.inr (Or.inl ⟨new, db', hc, ?_⟩)
          rw [apply_createPendingAndLock hc, lockOutputs_pendingTransactions]
  | updatePendingTransactionStatus id status => exact Or.inr (Or.inr ⟨id, status, rfl, rfl⟩)
  | expireAndUnlock id => exact Or.inr (Or.inr ⟨id, .expired, rfl, rfl⟩)
  | createCompletedTransaction new =>
      cases hc : db.createCompleted new with
      | error e => exact Or.inl (by simp [Statement.apply, hc, Except.toOption])
      | ok db' =>
          rw [apply_createCompleted hc]
          obtain ⟨_, -, -, -, -, -, _, -, rfl⟩ := createCompleted_ok hc
          exact Or.inl rfl
  | read => exact Or.inl rfl
  | lockOutput outputId req now => exact Or.inl rfl
  | unlockOutputsForRequest req => exact Or.inl rfl
  | markCompletedTransactionAsRejected txId reason now => exact Or.inl rfl
  | markCompletedTransactionAsBroadcasted txId attempts now => exact Or.inl rfl
  | markCompletedTransactionAsMinedUnconfirmed txId blockHeight blockHash now => exact Or.inl rfl
  | markCompletedTransactionAsConfirmed txId confirmationHeight sentPayref now => exact Or.inl rfl

/-- How the status of a pending transaction comes about. -/
theorem hasStatus_apply {db : Db} {x : Statement} {id : RequestId}
    {status : PendingTransactionStatus}
    (h : HasStatus (x.apply db).pendingTransactions id status) :
    HasStatus db.pendingTransactions id status ∨
      (status = .pending ∧ ¬PendingExists db.pendingTransactions id) ∨ x.sets = some (id, status) := by
  rcases apply_pendingTransactions db x with heq | ⟨new, db', hc, heq⟩ | ⟨id', status', hsets, heq⟩
  · exact Or.inl (heq ▸ h)
  · rw [heq] at h
    rcases (createPending_hasStatus hc id status).mp h with h | ⟨rfl, rfl⟩
    · exact Or.inl h
    · exact Or.inr (Or.inl ⟨rfl, createPending_fresh hc⟩)
  · rw [heq, hasStatus_update] at h
    split at h
    · next hid => exact Or.inr (Or.inr (by rw [hsets, hid, h.1]))
    · exact Or.inl h

theorem PendingExists.apply {db : Db} {id : RequestId} (h : PendingExists db.pendingTransactions id)
    (x : Statement) : PendingExists (x.apply db).pendingTransactions id := by
  rcases apply_pendingTransactions db x with heq | ⟨new, db', hc, heq⟩ | ⟨id', status', -, heq⟩
  · rwa [heq]
  · obtain ⟨status, hs⟩ := h.hasStatus
    rw [heq]
    exact ((createPending_hasStatus hc id status).mpr (Or.inl hs)).recorded
  · rw [heq]
    exact h.update id' status'

/-- A status stays unless the statement sets it. -/
theorem HasStatus.apply {db : Db} {id : RequestId} {status : PendingTransactionStatus}
    (h : HasStatus db.pendingTransactions id status) (x : Statement)
    (hx : ∀ status', x.sets ≠ some (id, status')) :
    HasStatus (x.apply db).pendingTransactions id status := by
  obtain ⟨status', hs'⟩ := (h.recorded.apply x).hasStatus
  rcases hasStatus_apply hs' with hs | ⟨-, hnew⟩ | hsets
  · exact h.unique hs ▸ hs'
  · exact absurd h.recorded hnew
  · exact absurd hsets (hx status')

/-! ## One output under one statement -/

/-- The outputs that the statement locks if they are `UNSPENT`, and for which pending transaction. -/
def Statement.locks (db : Db) : Statement → Option (RequestId × List Id)
  | .lockOutput outputId req _ => some (req, [outputId])
  | .createPendingTransactionAndLock new =>
    (db.createPending new).toOption.map (fun _ => (new.id, new.selection.utxos.map (·.id)))
  | _ => none

/-- What a statement that locks `locks` and unlocks `unlocks` can do to an output. -/
inductive OutputChange (locks : Option (RequestId × List Id)) (unlocks : Option RequestId)
    (o : OutputRow) : OutputRow → Prop where
  | stays (h : ∀ req ∈ unlocks, ¬(o.status = .locked ∧ o.lockedByRequestId = some req)) :
      OutputChange locks unlocks o o
  | locks {req : RequestId} {ids : List Id} (hlocks : locks = some (req, ids)) (hid : o.id ∈ ids)
      (hstatus : o.status = .unspent) (lockedAt : Timestamp) :
      OutputChange locks unlocks o
        { o with status := .locked, lockedByRequestId := some req, lockedAt := some lockedAt }
  | unlocks {req : RequestId} (hunlocks : unlocks = some req) (hstatus : o.status = .locked)
      (hreq : o.lockedByRequestId = some req) :
      OutputChange locks unlocks o
        { o with status := .unspent, lockedAt := none, lockedByRequestId := none }

theorem mem_lockOutputs {db : Db} {utxos : List DbWalletOutput} {req : RequestId} {now : Timestamp}
    {o' : OutputRow} : o' ∈ (db.lockOutputs utxos req now).outputs.rows ↔
      ∃ o ∈ db.outputs.rows, o' = if o.id ∈ utxos.map (·.id) ∧ o.status = .unspent then
        { o with status := .locked, lockedByRequestId := some req, lockedAt := some now } else o := by
  induction utxos generalizing db with
  | nil =>
      show o' ∈ db.outputs.rows ↔ _
      simp
  | cons u rest ih =>
      have hrest : o' ∈ ((db.lockOutput u.id req now).lockOutputs rest req now).outputs.rows ↔ _ := ih
      refine hrest.trans ?_
      -- an output that the first statement locks is not `UNSPENT` for the others
      have hrow : ∀ o₁, o₁ ∈ (db.lockOutput u.id req now).outputs.rows ↔ _ := fun _ => mem_lockOutput
      simp only [hrow]
      constructor
      · rintro ⟨_, ⟨o, ho, rfl⟩, rfl⟩
        refine ⟨o, ho, ?_⟩
        by_cases hu : o.id = u.id ∧ o.status = .unspent
        · simp [hu]
        · rw [if_neg hu]
          exact if_congr (by rw [List.map_cons, List.mem_cons]; tauto) rfl rfl
      · rintro ⟨o, ho, rfl⟩
        refine ⟨_, ⟨o, ho, rfl⟩, ?_⟩
        by_cases hu : o.id = u.id ∧ o.status = .unspent
        · simp [hu]
        · rw [if_neg hu]
          exact if_congr (by rw [List.map_cons, List.mem_cons]; tauto) rfl rfl

theorem mem_unlockOutputsForRequest {db : Db} {req : RequestId} {o' : OutputRow} :
    o' ∈ (db.unlockOutputsForRequest req).outputs.rows ↔ ∃ o ∈ db.outputs.rows,
      o' = if (o.lockedByRequestId == some req && o.status == .locked) = true then
        { o with status := .unspent, lockedAt := none, lockedByRequestId := none } else o := by
  refine (AutoTable.mem_updateWhere (by intro _; rfl)).trans ?_
  exact exists_congr (fun o => and_congr_right (fun _ => eq_comm))

/-- The outputs after a statement are those before it, each changed as the statement can. -/
structure OutputsFrom (locks : Option (RequestId × List Id)) (unlocks : Option RequestId)
    (before after : AutoTable OutputRow) : Prop where
  forward : ∀ o ∈ before.rows, ∃ o' ∈ after.rows, OutputChange locks unlocks o o'
  backward : ∀ o' ∈ after.rows, ∃ o ∈ before.rows, OutputChange locks unlocks o o'

section OutputsFrom

variable {locks : Option (RequestId × List Id)} {unlocks : Option RequestId}
  {before after : AutoTable OutputRow}

/-- A statement that changes each output by a function. -/
theorem OutputsFrom.of_map {f : OutputRow → OutputRow}
    (hmem : ∀ o', o' ∈ after.rows ↔ ∃ o ∈ before.rows, o' = f o)
    (hf : ∀ o, OutputChange locks unlocks o (f o)) : OutputsFrom locks unlocks before after where
  forward o ho := ⟨f o, (hmem _).mpr ⟨o, ho, rfl⟩, hf o⟩
  backward o' ho' := by
    obtain ⟨o, ho, rfl⟩ := (hmem o').mp ho'
    exact ⟨o, ho, hf o⟩

theorem OutputsFrom.of_eq (h : after = before) : OutputsFrom locks none before after := by
  subst h
  exact .of_map (f := id) (by simp) (fun o => .stays (fun req hreq => by cases hreq))

theorem outputChange_unlock (locks : Option (RequestId × List Id)) (req : RequestId)
    (o : OutputRow) : OutputChange locks (some req) o
      (if (o.lockedByRequestId == some req && o.status == .locked) = true then
        { o with status := .unspent, lockedAt := none, lockedByRequestId := none } else o) := by
  split
  · next h =>
      simp only [Bool.and_eq_true, beq_iff_eq] at h
      exact .unlocks rfl h.2 h.1
  · next h =>
      refine .stays (fun req' hreq' hboth => h ?_)
      cases hreq'
      simp [hboth.1, hboth.2]

theorem outputChange_lock (req : RequestId) (ids : List Id) (now : Timestamp) (o : OutputRow) :
    OutputChange (some (req, ids)) none o (if o.id ∈ ids ∧ o.status = .unspent then
      { o with status := .locked, lockedByRequestId := some req, lockedAt := some now } else o) := by
  split
  · next h => exact .locks rfl h.1 h.2 now
  · exact .stays (fun req' hreq' => by cases hreq')

end OutputsFrom

theorem outputsFrom_apply (db : Db) (x : Statement) :
    OutputsFrom (x.locks db) x.unlocks db.outputs (x.apply db).outputs := by
  cases x with
  | record x hkeeps => exact .of_eq (congrArg Ledger.outputs (record_ledger hkeeps db))
  | createPendingTransaction new =>
      refine .of_eq ?_
      cases hc : db.createPending new with
      | error e => simp [Statement.apply, hc, Except.toOption]
      | ok db' => rw [apply_createPending hc, createPending_outputs hc]
  | createPendingTransactionAndLock new =>
      cases hc : db.createPending new with
      | error e =>
          refine .of_eq ?_
          simp [Statement.apply, Db.createPendingAndLock, hc, Except.toOption, Except.map]
      | ok db' =>
          rw [apply_createPendingAndLock hc]
          simp only [Statement.locks, hc, Except.toOption, Option.map_some]
          refine .of_map (fun o' => ?_) (outputChange_lock new.id _ new.expiresAt)
          rw [← createPending_outputs hc]
          exact mem_lockOutputs
  | lockOutput outputId req now =>
      refine .of_map (fun o' => ?_) (outputChange_lock req [outputId] now)
      simp only [List.mem_singleton]
      exact mem_lockOutput
  | unlockOutputsForRequest req =>
      exact .of_map (fun o' => mem_unlockOutputsForRequest) (outputChange_unlock none req)
  | expireAndUnlock req =>
      exact .of_map (fun o' => mem_unlockOutputsForRequest) (outputChange_unlock none req)
  | createCompletedTransaction new =>
      refine .of_eq ?_
      cases hc : db.createCompleted new with
      | error e => simp [Statement.apply, hc, Except.toOption]
      | ok db' =>
          rw [apply_createCompleted hc]
          obtain ⟨_, -, -, -, -, -, _, -, rfl⟩ := createCompleted_ok hc
          rfl
  | read => exact .of_eq rfl
  | updatePendingTransactionStatus id status => exact .of_eq rfl
  | markCompletedTransactionAsRejected txId reason now => exact .of_eq rfl
  | markCompletedTransactionAsBroadcasted txId attempts now => exact .of_eq rfl
  | markCompletedTransactionAsMinedUnconfirmed txId blockHeight blockHash now => exact .of_eq rfl
  | markCompletedTransactionAsConfirmed txId confirmationHeight sentPayref now => exact .of_eq rfl

/-! ## Completed transactions -/

/-- The completed transaction that the statement marks `Rejected`. -/
def Statement.rejects : Statement → Option TxId
  | .markCompletedTransactionAsRejected txId _ _ => some txId
  | _ => none

/-- The completed transactions after a step: rows keep what was serialised and for which pending
    transaction, and only the row `rejects` may be `Rejected` and not have been before. -/
structure RowsFrom (rejects : Option TxId) (before after : Table CompletedTransactionRow) :
    Prop where
  kept : ∀ r ∈ before.rows, ∃ r' ∈ after.rows, r'.id = r.id ∧
    r'.serializedTransaction = r.serializedTransaction ∧ r'.pendingTxId = r.pendingTxId
  rejected : ∀ r' ∈ after.rows, r'.status = .rejected → ∃ r ∈ before.rows, r.id = r'.id ∧
    r.serializedTransaction = r'.serializedTransaction ∧ r.pendingTxId = r'.pendingTxId ∧
    (r.status = .rejected ∨ rejects = some r.id)
  canceled : ∀ r' ∈ after.rows, r'.status = .canceled → ∃ r ∈ before.rows, r.id = r'.id ∧
    r.status = .canceled

theorem RowsFrom.refl (t : Table CompletedTransactionRow) (rejects : Option TxId) :
    RowsFrom rejects t t :=
  ⟨fun r hr => ⟨r, hr, rfl, rfl, rfl⟩, fun r hr h => ⟨r, hr, rfl, rfl, rfl, Or.inl h⟩,
    fun r hr h => ⟨r, hr, rfl, h⟩⟩

theorem RowsFrom.insert {t t' : Table CompletedTransactionRow} {row : CompletedTransactionRow}
    (h : t.insert? row = some t') (hrow : row.status = .completed) (rejects : Option TxId) :
    RowsFrom rejects t t' := by
  refine ⟨fun r hr => ⟨r, (Table.mem_insert? h).mpr (Or.inl hr), rfl, rfl, rfl⟩,
    fun r' hr' hstatus => ?_, fun r' hr' hstatus => ?_⟩
  · rcases (Table.mem_insert? h).mp hr' with hr | rfl
    · exact ⟨r', hr, rfl, rfl, rfl, Or.inl hstatus⟩
    · rw [hrow] at hstatus
      cases hstatus
  · rcases (Table.mem_insert? h).mp hr' with hr | rfl
    · exact ⟨r', hr, rfl, hstatus⟩
    · rw [hrow] at hstatus
      cases hstatus

theorem RowsFrom.updateWhere {t : Table CompletedTransactionRow}
    {p : CompletedTransactionRow → Bool} {f : CompletedTransactionRow → CompletedTransactionRow}
    {rejects : Option TxId} (hid : ∀ r, (f r).id = r.id)
    (htx : ∀ r, (f r).serializedTransaction = r.serializedTransaction)
    (hpending : ∀ r, (f r).pendingTxId = r.pendingTxId)
    (hstatus : ∀ r, p r = true → (f r).status = .rejected → rejects = some r.id)
    (hcanceled : ∀ r, (f r).status ≠ .canceled) : RowsFrom rejects t (t.updateWhere p f hid) := by
  refine ⟨?_, ?_, ?_⟩
  · intro r hr
    refine ⟨_, (Table.mem_updateWhere hid).mpr ⟨r, hr, rfl⟩, ?_⟩
    split
    · exact ⟨hid r, htx r, hpending r⟩
    · exact ⟨rfl, rfl, rfl⟩
  · intro r' hr' hrejected
    obtain ⟨r, hr, rfl⟩ := (Table.mem_updateWhere hid).mp hr'
    by_cases hp : p r = true
    · rw [if_pos hp] at hrejected ⊢
      exact ⟨r, hr, (hid r).symm, (htx r).symm, (hpending r).symm,
        Or.inr (hstatus r hp hrejected)⟩
    · rw [if_neg hp] at hrejected ⊢
      exact ⟨r, hr, rfl, rfl, rfl, Or.inl hrejected⟩
  · intro r' hr' hstatus'
    obtain ⟨r, hr, rfl⟩ := (Table.mem_updateWhere hid).mp hr'
    split at hstatus'
    · exact absurd hstatus' (hcanceled r)
    · next hp =>
        rw [if_neg hp]
        exact ⟨r, hr, rfl, hstatus'⟩

theorem rowsFrom_apply (db : Db) (x : Statement) :
    RowsFrom x.rejects db.completedTransactions (x.apply db).completedTransactions := by
  cases x with
  | record x hkeeps =>
      have hcompleted : (Statement.apply db (.record x hkeeps)).completedTransactions =
        db.completedTransactions := congrArg Ledger.completedTransactions (record_ledger hkeeps db)
      rw [hcompleted]
      exact .refl _ _
  | createPendingTransaction new =>
      cases hc : db.createPending new with
      | error e =>
          simp only [Statement.apply, hc, Except.toOption, Option.getD_none]
          exact .refl _ _
      | ok db' =>
          rw [apply_createPending hc]
          obtain ⟨_, -, -, -, -, -, _, -, rfl⟩ := createPending_ok hc
          exact .refl _ _
  | createPendingTransactionAndLock new =>
      cases hc : db.createPending new with
      | error e =>
          simp only [Statement.apply, Db.createPendingAndLock, hc, Except.map, Except.toOption,
            Option.getD_none]
          exact .refl _ _
      | ok db' =>
          rw [apply_createPendingAndLock hc, lockOutputs_completedTransactions]
          obtain ⟨_, -, -, -, -, -, _, -, rfl⟩ := createPending_ok hc
          exact .refl _ _
  | createCompletedTransaction new =>
      cases hc : db.createCompleted new with
      | error e =>
          simp only [Statement.apply, hc, Except.toOption, Option.getD_none]
          exact .refl _ _
      | ok db' =>
          rw [apply_createCompleted hc]
          obtain ⟨row, -, -, hstatus, -, -, _, hins, rfl⟩ := createCompleted_ok hc
          exact .insert hins hstatus _
  | markCompletedTransactionAsRejected txId reason now =>
      refine .updateWhere (by intro _; rfl) (by intro _; rfl) (by intro _; rfl) (fun r hp _ => ?_)
        (fun r h => by cases h)
      have hid : r.id = txId := by simpa using hp
      exact congrArg some hid.symm
  | markCompletedTransactionAsBroadcasted txId attempts now =>
      exact .updateWhere (by intro _; rfl) (by intro _; rfl) (by intro _; rfl)
        (fun r _ h => by cases h) (fun r h => by cases h)
  | markCompletedTransactionAsMinedUnconfirmed txId blockHeight blockHash now =>
      exact .updateWhere (by intro _; rfl) (by intro _; rfl) (by intro _; rfl)
        (fun r _ h => by cases h) (fun r h => by cases h)
  | markCompletedTransactionAsConfirmed txId confirmationHeight sentPayref now =>
      exact .updateWhere (by intro _; rfl) (by intro _; rfl) (by intro _; rfl)
        (fun r _ h => by cases h) (fun r h => by cases h)
  | read => exact .refl _ _
  | lockOutput outputId req now => exact .refl _ _
  | updatePendingTransactionStatus id status => exact .refl _ _
  | unlockOutputsForRequest req => exact .refl _ _
  | expireAndUnlock id => exact .refl _ _

theorem rowsFrom_reset (db : Db) (accountId : AccountId) (height : Nat) (now : Timestamp) :
    RowsFrom none db.completedTransactions
      (db.resetMinedCompletedTransactionsFromHeight accountId height now).completedTransactions :=
  .updateWhere (by intro _; rfl) (by intro _; rfl) (by intro _; rfl) (fun r _ h => by cases h)
    (fun r h => by cases h)

end MinotariWallet
