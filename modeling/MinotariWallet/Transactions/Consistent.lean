import MinotariWallet.Transactions.Steps

set_option autoImplicit false

/-! # The databases that the wallet comes to

What every run of the system from the empty database keeps: the `UNIQUE` constraint on the key of an
account, and that an output carries the id of a pending transaction only while it is locked or spent
for it. -/

namespace MinotariWallet

open Sql Processes WalletSystem

/-- The pending transaction is the one of the key of the account. -/
def HasKey (pendingTransactions : Table PendingTransactionRow) (id : RequestId)
    (key : IdempotencyKey) (accountId : AccountId) : Prop :=
  ∃ p ∈ pendingTransactions.rows, p.id = id ∧ p.idempotencyKey = key ∧ p.accountId = accountId

structure Consistent (db : Db) : Prop where
  /-- A key of an account has one pending transaction. -/
  keys : ∀ id id' key accountId, HasKey db.pendingTransactions id key accountId →
    HasKey db.pendingTransactions id' key accountId → id = id'
  /-- An output that carries the id of a pending transaction is not `UNSPENT`, and it exists. -/
  carried : ∀ o ∈ db.outputs.rows, ∀ req, o.lockedByRequestId = some req →
    o.status ≠ .unspent ∧ PendingExists db.pendingTransactions req

structure AllConsistent (s : WalletSystem) : Prop where
  db : Consistent s.db
  recorded : Each (fun _ c => ∀ id, c.pendingTxId = some id →
    PendingExists s.db.pendingTransactions id) s.calls

/-- A database that the wallet comes to, whatever calls it runs and whatever they are interrupted
    by. -/
def Reached (env : TransactionEnv) (db : Db) : Prop :=
  ∃ as s, Transition.run (WalletSystem.step env) { db := Db.empty } as = some s ∧ s.db = db

variable {env : TransactionEnv} {ch : Choice} {db : Db} {x : Statement} {c c' : Call}
  {s s' : WalletSystem} {a : SystemAction}

/-! ## Keys -/

theorem HasKey.exists {t : Table PendingTransactionRow} {id : RequestId} {key : IdempotencyKey}
    {accountId : AccountId} (h : HasKey t id key accountId) : PendingExists t id := by
  obtain ⟨p, hp, hid, -⟩ := h
  exact ⟨p, hp, hid⟩

theorem hasKey_createPending {db' : Db} {new : NewPendingTransaction}
    (h : db.createPending new = .ok db') (id : RequestId) (key : IdempotencyKey)
    (accountId : AccountId) : HasKey db'.pendingTransactions id key accountId ↔
      HasKey db.pendingTransactions id key accountId ∨
        (new.id = id ∧ new.idempotencyKey = key ∧ new.accountId = accountId) := by
  obtain ⟨row, hid, hacc, hkey, -, -, _, hins, rfl⟩ := createPending_ok h
  unfold HasKey
  simp only [Table.mem_insert? hins]
  constructor
  · rintro ⟨p, hp | rfl, hrest⟩
    · exact Or.inl ⟨p, hp, hrest⟩
    · exact Or.inr (by rwa [hid, hacc, hkey] at hrest)
  · rintro (⟨p, hp, hrest⟩ | hrest)
    · exact ⟨p, Or.inl hp, hrest⟩
    · exact ⟨row, Or.inr rfl, by rwa [hid, hacc, hkey]⟩

/-- A created pending transaction is the first of its key. -/
theorem createPending_new {db' : Db} {new : NewPendingTransaction}
    (h : db.createPending new = .ok db') (id : RequestId) :
    ¬HasKey db.pendingTransactions id new.idempotencyKey new.accountId := by
  obtain ⟨_, -, -, -, -, hfirst, -⟩ := createPending_ok h
  rintro ⟨p, hp, -, hkey, hacc⟩
  have hnot := hfirst p hp
  simp [PendingTransactionRow.hasKey, hkey, hacc] at hnot

/-- An `UPDATE` of the status leaves the keys alone. -/
theorem hasKey_updateWhere (t : Table PendingTransactionRow) (q : PendingTransactionRow → Bool)
    (status : PendingTransactionStatus) (id : RequestId) (key : IdempotencyKey)
    (accountId : AccountId) :
    HasKey (t.updateWhere q (fun p => { p with status })) id key accountId ↔
      HasKey t id key accountId := by
  unfold HasKey
  constructor
  · rintro ⟨p', hp', hrest⟩
    obtain ⟨p, hp, rfl⟩ := (Table.mem_updateWhere (by intro _; rfl)).mp hp'
    refine ⟨p, hp, ?_⟩
    split at hrest <;> exact hrest
  · rintro ⟨p, hp, hrest⟩
    refine ⟨_, (Table.mem_updateWhere (by intro _; rfl)).mpr ⟨p, hp, rfl⟩, ?_⟩
    split <;> exact hrest

theorem HasKey.apply {id : RequestId} {key : IdempotencyKey} {accountId : AccountId}
    (h : HasKey db.pendingTransactions id key accountId) (x : Statement) :
    HasKey (x.apply db).pendingTransactions id key accountId := by
  rcases apply_pendingTransactions db x with heq | ⟨new, db', hc, heq⟩ | ⟨id', status', -, heq⟩
  · rwa [heq]
  · rw [heq]
    exact (hasKey_createPending hc id key accountId).mpr (Or.inl h)
  · rw [heq]
    exact (hasKey_updateWhere _ _ _ id key accountId).mpr h

/-- A key of an account has one pending transaction. -/
def UniqueKeys (t : Table PendingTransactionRow) : Prop :=
  ∀ id id' key accountId, HasKey t id key accountId → HasKey t id' key accountId → id = id'

theorem UniqueKeys.updateWhere {t : Table PendingTransactionRow} (h : UniqueKeys t)
    (q : PendingTransactionRow → Bool) (status : PendingTransactionStatus) :
    UniqueKeys (t.updateWhere q (fun p => { p with status })) := by
  intro id id' key accountId hid hid'
  exact h id id' key accountId ((hasKey_updateWhere _ _ _ id key accountId).mp hid)
    ((hasKey_updateWhere _ _ _ id' key accountId).mp hid')

theorem UniqueKeys.apply (h : UniqueKeys db.pendingTransactions) (x : Statement) :
    UniqueKeys (x.apply db).pendingTransactions := by
  rcases apply_pendingTransactions db x with heq | ⟨new, db', hc, heq⟩ | ⟨id'', status', -, heq⟩
  · rw [heq]
    exact h
  · rw [heq]
    intro id id' key accountId hid hid'
    rcases (hasKey_createPending hc id key accountId).mp hid with hid | ⟨rfl, rfl, rfl⟩
    · rcases (hasKey_createPending hc id' key accountId).mp hid' with hid' | ⟨rfl, rfl, rfl⟩
      · exact h id id' key accountId hid hid'
      · exact absurd hid (createPending_new hc id)
    · rcases (hasKey_createPending hc id' _ _).mp hid' with hid' | ⟨hid', -⟩
      · exact absurd hid' (createPending_new hc id')
      · exact hid'
  · rw [heq]
    exact h.updateWhere _ _

/-! ## Outputs -/

/-- A call locks outputs for its own pending transaction, which exists by then. -/
theorem CallStep.locks_recorded (h : CallStep env ch db c x c')
    (hc : ∀ id, c.pendingTxId = some id → PendingExists db.pendingTransactions id) {req : RequestId}
    {ids : List Id} (hx : x.locks db = some (req, ids)) :
    PendingExists (x.apply db).pendingTransactions req := by
  cases h with
  | lock h =>
      cases h with
      | created new result db' hid hkey haccount hok =>
          simp only [Statement.locks, hok, Except.toOption, Option.map_some, Option.some.injEq,
            Prod.mk.injEq] at hx
          rw [apply_createPendingAndLock hok, lockOutputs_pendingTransactions, ← hx.1]
          exact createPending_recorded hok
      | notCreated new e hfail =>
          simp [Statement.locks, hfail, Except.toOption] at hx
      | _ => cases hx
  | start h =>
      cases h with
      | locked id expiresAt utxos rest utxo =>
          cases hx
          exact hc _ rfl
      | _ => cases hx
  | finalize h => cases h <;> cases hx
  | unlocker h => cases h <;> cases hx
  | monitor h => cases h <;> cases hx

theorem Consistent.apply (h : Consistent db) (hstep : CallStep env ch db c x c')
    (hc : ∀ id, c.pendingTxId = some id → PendingExists db.pendingTransactions id) :
    Consistent (x.apply db) where
  keys := UniqueKeys.apply h.keys x
  carried o' ho' req hreq := by
    obtain ⟨o, ho, hchange⟩ := (outputsFrom_apply db x).backward o' ho'
    cases hchange with
    | stays =>
        obtain ⟨hnot, hexists⟩ := h.carried o' ho req hreq
        exact ⟨hnot, hexists.apply x⟩
    | locks hlocks hid hstatus lockedAt =>
        cases hreq
        exact ⟨by simp, hstep.locks_recorded hc hlocks⟩
    | unlocks => cases hreq

/-! ## Runs -/

theorem pendingExists_step {id : RequestId} (h : PendingExists s.db.pendingTransactions id)
    (hstep : s.step env a = some s') : PendingExists s'.db.pendingTransactions id := by
  rcases step_db hstep with hdb | ⟨i, ch, rfl⟩ | ⟨bp, block, accountId, now, rfl⟩ |
    ⟨accountId, height, webhookConfig, now, rfl⟩
  · rwa [hdb]
  · obtain ⟨_, x, _, -, -, -, rfl⟩ := step_statement hstep
    exact h.apply x
  · obtain ⟨db, rfl, -, hpending, -⟩ := step_processBlock hstep
    exact hpending ▸ h
  · obtain ⟨db, rfl, -, hpending, -⟩ := step_rollbackFromHeight hstep
    show PendingExists db.pendingTransactions id
    rw [hpending]
    exact h.cancel _ _

theorem Call.pendingTxId_sent (c : Call) (messageId : Nat) : (c.sent messageId).pendingTxId = c.pendingTxId := by
  unfold Call.sent
  split <;> rfl

theorem Call.pendingTxId_received (c : Call) (result : Except String TxSubmissionResponse) :
    (c.received result).pendingTxId = c.pendingTxId := by
  unfold Call.received
  split <;> rfl

theorem Call.pendingTxId_retry (h : c.retry = some c') : c'.pendingTxId = c.pendingTxId := by
  unfold Call.retry at h
  split at h <;> cases h <;> rfl

theorem allConsistent_step (h : AllConsistent s) (hstep : s.step env a = some s') :
    AllConsistent s' := by
  have hkept : ∀ {c : Call} {j : Nat}, s.calls[j]? = some c → ∀ id, c.pendingTxId = some id →
      PendingExists s'.db.pendingTransactions id :=
    fun hc id hid => pendingExists_step (h.recorded _ _ hc id hid) hstep
  constructor
  · rcases step_db hstep with hdb | ⟨i, ch, rfl⟩ | ⟨bp, block, accountId, now, rfl⟩ |
      ⟨accountId, height, webhookConfig, now, rfl⟩
    · rw [hdb]
      exact h.db
    · obtain ⟨c, x, c', hc, -, hcall, rfl⟩ := step_statement hstep
      exact h.db.apply hcall (h.recorded i c hc)
    · obtain ⟨db, rfl, hscanned, hpending, -⟩ := step_processBlock hstep
      refine ⟨hpending ▸ h.db.keys, fun o' ho' req hreq => ?_⟩
      rcases hscanned.rows o' ho' with ⟨-, -, hfree⟩ | ⟨o, ho, -, hlock, -, hstatus⟩
      · rw [hfree] at hreq
        cases hreq
      · obtain ⟨hnot, hexists⟩ := h.db.carried o ho req (hlock ▸ hreq)
        refine ⟨?_, hpending ▸ hexists⟩
        rcases hstatus with hstatus | hstatus
        · rwa [hstatus]
        · rw [hstatus]
          decide
    · obtain ⟨db, rfl, houtputs, hpending, -⟩ := step_rollbackFromHeight hstep
      refine ⟨fun id id' key account hid hid' => ?_, fun o' ho' req hreq => ?_⟩
      · dsimp only at hid hid'
        rw [hpending] at hid hid'
        exact h.db.keys id id' key account ((hasKey_updateWhere _ _ _ id key account).mp hid)
          ((hasKey_updateWhere _ _ _ id' key account).mp hid')
      · dsimp only at ho' ⊢
        rw [houtputs] at ho'
        obtain ⟨o, ho, rfl⟩ := (AutoTable.mem_updateWhere (by intro _; rfl)).mp ho'
        have hlock : o.lockedByRequestId = some req := by
          split at hreq <;> exact hreq
        obtain ⟨hnot, hexists⟩ := h.db.carried o ho req hlock
        refine ⟨?_, hpending ▸ hexists.cancel _ _⟩
        split <;> exact hnot
  · intro j c' hj
    cases step_calls hstep hj with
    | stay hc => exact hkept hc
    | statement hc hcall hdb =>
        rw [hdb]
        exact hcall.recorded (h.recorded j _ hc)
    | send hc hsend => rw [Call.pendingTxId_sent]; exact hkept hc
    | receive hc hawait hresult => rw [Call.pendingTxId_received]; exact hkept hc
    | retry hc hretry => rw [Call.pendingTxId_retry hretry]; exact hkept hc
    | fail hc hawait => rw [Call.pendingTxId_received]; exact hkept hc
    | finalize kernelExcess sentOutputHash displayed hc =>
        intro id hid
        exact hkept hc id hid
    | _ => intro id hid; cases hid

theorem consistent_empty : Consistent Db.empty where
  keys id id' key accountId h _ := by
    obtain ⟨p, hp, -⟩ := h
    cases hp
  carried o ho := by cases ho

theorem Reached.consistent (h : Reached env db) : Consistent db := by
  obtain ⟨as, s, hrun, rfl⟩ := h
  exact (Transition.inv_of_steps (fun _ _ _ => allConsistent_step) ⟨consistent_empty, each_nil⟩
    hrun).db

end MinotariWallet
