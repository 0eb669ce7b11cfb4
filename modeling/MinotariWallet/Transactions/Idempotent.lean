import MinotariWallet.Transactions.HandedOut
import MinotariWallet.Transactions.Refused

set_option autoImplicit false

/-! # Locking again under a key

`FundLocker::lock` answers a key whose pending transaction is `Pending` from the row and from the
outputs that carry its id. Other locks, the unlocker, blocks and rollbacks take no id off an output
and put none on one while the transaction stays `Pending`, so the answer is the first one. -/

namespace MinotariWallet

open Sql Exec Processes WalletSystem

/-! ## Answers -/

/-- The amounts are 64-bit values. -/
structure LockFundsResult.Sized (result : LockFundsResult) : Prop where
  totalValue : result.totalValue < 2 ^ 64
  feeWithoutChange : result.feeWithoutChange < 2 ^ 64
  feeWithChange : result.feeWithChange < 2 ^ 64

/-- The row is the one of the key, with these amounts. -/
structure PendingTransactionRow.Gives (p : PendingTransactionRow) (key : IdempotencyKey)
    (accountId : AccountId) (result : LockFundsResult) : Prop where
  key : p.idempotencyKey = key
  account : p.accountId = accountId
  requiresChangeOutput : p.requiresChangeOutput = result.requiresChangeOutput
  totalValue : asU64 p.totalValue = result.totalValue
  feeWithoutChange : asU64 p.feeWithoutChange = result.feeWithoutChange
  feeWithChange : asU64 p.feeWithChange = result.feeWithChange

/-- The database has what `lock` has returned under the key. -/
structure Answers (db : Db) (key : IdempotencyKey) (accountId : AccountId) (id : RequestId)
    (utxos : List DbWalletOutput) (result : LockFundsResult) : Prop where
  row : ∃ p ∈ db.pendingTransactions.rows, p.id = id ∧ p.Gives key accountId result
  carried : ∀ u, u ∈ utxos ↔ u ∈ db.fetchOutputsByLockRequestId id
  utxos : result.utxos = utxos.map (·.output)

/-- What a call of `lock` has found out so far, when nothing else has run since it began. -/
def LockState.Found (db : Db) (key : IdempotencyKey) (accountId : AccountId) : LockState → Prop
  | .fetchExisting pending => ∃ p ∈ db.pendingTransactions.rows, p.id = pending.id ∧
      p.Gives key accountId ⟨[], pending.requiresChangeOutput, pending.totalValue,
        pending.feeWithoutChange, pending.feeWithChange⟩
  | .transaction selection => ∀ u ∈ selection.utxos, ∃ o ∈ db.outputs.rows,
      o.status = .unspent ∧ o.toDbWalletOutput = u
  | .ok id utxos result => result.Sized → Answers db key accountId id utxos result
  | _ => True

/-- The same funds: the outputs are the same, each as often when none was selected twice. -/
structure SameFunds (utxos : List DbWalletOutput) (result result' : LockFundsResult) : Prop where
  outputs : ∀ output, output ∈ result'.utxos ↔ output ∈ result.utxos
  perm : utxos.Nodup → result'.utxos.Perm result.utxos
  requiresChangeOutput : result'.requiresChangeOutput = result.requiresChangeOutput
  totalValue : result'.totalValue = result.totalValue
  feeWithoutChange : result'.feeWithoutChange = result.feeWithoutChange
  feeWithChange : result'.feeWithChange = result.feeWithChange

/-- The calls of `lock` and of the unlocker. -/
def Call.locksOrUnlocks : Call → Bool
  | .lock _ _ => true
  | .unlocker _ => true
  | _ => false

/-- Other locks, the unlocker, blocks and rollbacks. -/
def LocksOrScans (s : WalletSystem) : SystemAction → Prop
  | .lock _ => True
  | .unlockExpiredTransactions => True
  | .processBlock _ _ _ _ => True
  | .rollbackFromHeight _ _ _ _ => True
  | .statement i _ => ∀ c ∈ s.calls[i]?, c.locksOrUnlocks = true
  | _ => False

instance (s : WalletSystem) (a : SystemAction) : Decidable (LocksOrScans s a) := by
  cases a <;> unfold LocksOrScans <;> infer_instance

instance (result : LockFundsResult) : Decidable result.Sized :=
  decidable_of_iff (result.totalValue < 2 ^ 64 ∧ result.feeWithoutChange < 2 ^ 64 ∧
    result.feeWithChange < 2 ^ 64) ⟨fun h => ⟨h.1, h.2.1, h.2.2⟩, fun h => ⟨h.1, h.2, h.3⟩⟩

variable {env : TransactionEnv} {ch : Choice} {db : Db} {x : Statement} {s s' : WalletSystem}
  {a : SystemAction} {key : IdempotencyKey} {accountId : AccountId} {id : RequestId}
  {utxos : List DbWalletOutput} {result : LockFundsResult}

/-! ## The first call -/

theorem createPending_row {db' : Db} {new : NewPendingTransaction}
    (h : db.createPending new = .ok db') :
    ∃ p ∈ db'.pendingTransactions.rows, p.id = new.id ∧ p.idempotencyKey = new.idempotencyKey ∧
      p.accountId = new.accountId ∧
      p.requiresChangeOutput = new.selection.requiresChangeOutput ∧
      p.totalValue = asI64 new.selection.totalValue ∧
      p.feeWithoutChange = asI64 new.selection.feeWithoutChange ∧
      p.feeWithChange = asI64 new.selection.feeWithChange := by
  unfold Db.createPending Db.createPendingTransaction at h
  split at h
  · cases h
  · split at h
    · cases h
    · next pendingTransactions hins =>
        cases h
        exact ⟨_, (Table.mem_insert? hins).mpr (Or.inr rfl), rfl, rfl, rfl, rfl, rfl, rfl, rfl⟩

theorem mem_fetchOutputsByLockRequestId {u : DbWalletOutput} :
    u ∈ db.fetchOutputsByLockRequestId id ↔
      ∃ o ∈ db.outputs.rows, o.lockedByRequestId = some id ∧ o.toDbWalletOutput = u := by
  unfold Db.fetchOutputsByLockRequestId
  simp only [List.mem_map, Table.mem_select, beq_iff_eq, and_assoc]

theorem nodup_fetchOutputsByLockRequestId (db : Db) (id : RequestId) :
    (db.fetchOutputsByLockRequestId id).Nodup := by
  refine List.Nodup.of_map (·.id) ?_
  unfold Db.fetchOutputsByLockRequestId
  rw [List.map_map]
  exact db.outputs.nodup_select _

/-- The outputs that a new pending transaction locks are those that carry its id. -/
theorem carried_createPendingAndLock {db' : Db} {new : NewPendingTransaction}
    (hdb : Consistent db) (h : db.createPending new = .ok db')
    (hfound : ∀ u ∈ new.selection.utxos, ∃ o ∈ db.outputs.rows,
      o.status = .unspent ∧ o.toDbWalletOutput = u) (u : DbWalletOutput) :
    u ∈ new.selection.utxos ↔ u ∈ (db'.lockOutputs new.selection.utxos new.id
      new.expiresAt).fetchOutputsByLockRequestId new.id := by
  have houtputs := createPending_outputs h
  rw [mem_fetchOutputsByLockRequestId]
  constructor
  · intro hu
    obtain ⟨o, ho, hunspent, rfl⟩ := hfound u hu
    refine ⟨_, mem_lockOutputs.mpr ⟨o, houtputs ▸ ho, rfl⟩, ?_⟩
    rw [if_pos ⟨List.mem_map_of_mem hu, hunspent⟩]
    exact ⟨rfl, rfl⟩
  · rintro ⟨o', ho', hcarries, rfl⟩
    obtain ⟨o, ho, rfl⟩ := mem_lockOutputs.mp ho'
    rw [houtputs] at ho
    split at hcarries
    · next hlocked =>
        rw [if_pos hlocked]
        obtain ⟨v, hv, hid⟩ := List.mem_map.mp hlocked.1
        obtain ⟨o₁, ho₁, -, rfl⟩ := hfound v hv
        obtain rfl : o₁ = o := db.outputs.eq_of_key_eq ho₁ ho hid
        exact hv
    · -- the id is new, so no output carries it yet
      exact absurd (hdb.carried o ho new.id hcarries).2 (createPending_fresh h)

theorem LockState.Found.next {req : LockFundsRequest} {st st' : LockState}
    (hkey : req.idempotencyKey = some key) (hdb : Consistent db)
    (h : st.Found db key req.selector.accountId)
    (hnext : st.next env ch db req = some (x, st')) :
    st'.Found (x.apply db) key req.selector.accountId := by
  cases st with
  | find =>
      simp only [LockState.next, hkey, Option.bind_some] at hnext
      split at hnext
      · next pending hpending =>
          cases hnext
          obtain ⟨p, hfind, rfl⟩ := Option.map_eq_some_iff.mp hpending
          obtain ⟨hp, hq⟩ := Table.find?_some hfind
          simp only [PendingTransactionRow.hasKey, Bool.and_eq_true, beq_iff_eq] at hq
          exact ⟨p, hp, rfl, hq.1.1, hq.1.2, rfl, rfl, rfl, rfl⟩
      · cases hnext
        trivial
  | fetchExisting pending =>
      cases hnext
      obtain ⟨p, hp, hid, hgives⟩ := h
      intro _
      exact ⟨⟨p, hp, hid, hgives.key, hgives.account, hgives.requiresChangeOutput,
        hgives.totalValue, hgives.feeWithoutChange, hgives.feeWithChange⟩, fun _ => Iff.rfl, rfl⟩
  | selecting st =>
      simp only [LockState.next] at hnext
      split at hnext
      · cases hnext
        trivial
      · cases hnext
        trivial
      · next selection hsel =>
          cases hnext
          intro u hu
          obtain ⟨minHeight, total, hselect⟩ := InputSelector.step_inr hsel
          have hmem := InputSelector.select_mem hselect u hu
          simp only [Db.fetchUnspentOutputs, List.mem_map, mem_orderByDesc, Table.mem_select,
            Bool.and_eq_true, beq_iff_eq] at hmem
          obtain ⟨o, ⟨ho, hp⟩, rfl⟩ := hmem
          exact ⟨o, ho, hp.1.1.1.2, rfl⟩
  | transaction selection =>
      simp only [LockState.next] at hnext
      split at hnext
      · cases hnext
        trivial
      · next db' hok =>
          cases hnext
          intro hsized
          rw [apply_createPendingAndLock hok]
          obtain ⟨p, hp, hid, hkey', hacc, hchange, htotal, hwithout, hwith⟩ :=
            createPending_row hok
          refine ⟨⟨p, ?_, hid, ?_, hacc, hchange, ?_, ?_, ?_⟩,
            carried_createPendingAndLock hdb hok h, rfl⟩
          · rwa [lockOutputs_pendingTransactions]
          · rw [hkey', hkey]
            rfl
          · rw [htotal, asU64_asI64 hsized.totalValue]
          · rw [hwithout, asU64_asI64 hsized.feeWithoutChange]
          · rw [hwith, asU64_asI64 hsized.feeWithChange]
  | ok id utxos result => cases hnext
  | failed e => cases hnext

/-- The call in a run in which only it moves. -/
theorem lock_answers {req : LockFundsRequest} {st : LockState} {i : Nat} {chs : List Choice}
    (hkey : req.idempotencyKey = some key) (h : AllConsistent s)
    (hcall : s.calls[i]? = some (.lock req st)) (hfound : st.Found s.db key req.selector.accountId)
    (hrun : Transition.run (WalletSystem.step env) s (chs.map (.statement i)) = some s') :
    AllConsistent s' ∧ ∃ st', s'.calls[i]? = some (.lock req st') ∧
      st'.Found s'.db key req.selector.accountId := by
  induction chs generalizing s st with
  | nil =>
      cases hrun
      exact ⟨h, st, hcall, hfound⟩
  | cons ch chs ih =>
      obtain ⟨t, hstep, hrest⟩ := Transition.run_cons.mp hrun
      have ht := allConsistent_step h hstep
      obtain ⟨c, x, c', hc, hnext, -, rfl⟩ := step_statement hstep
      rw [hcall] at hc
      cases hc
      obtain ⟨⟨y, st'⟩, hst, heq⟩ := Option.map_eq_some_iff.mp hnext
      cases heq
      refine ih ht ?_ (hfound.next hkey h.db hst) hrest
      have hi : i < s.calls.length := (List.getElem?_eq_some_iff.mp hcall).1
      simp [hi]

/-! ## What other operations leave -/

/-- Rows that keep all but their status. -/
theorem gives_updateWhere (t : Table PendingTransactionRow) (q : PendingTransactionRow → Bool)
    (status : PendingTransactionStatus)
    (h : ∃ p ∈ t.rows, p.id = id ∧ p.Gives key accountId result) :
    ∃ p ∈ (t.updateWhere q (fun p => { p with status })).rows,
      p.id = id ∧ p.Gives key accountId result := by
  obtain ⟨p, hp, hid, hgives⟩ := h
  refine ⟨_, (Table.mem_updateWhere (by intro _; rfl)).mpr ⟨p, hp, rfl⟩, ?_⟩
  split
  · exact ⟨hid, hgives.key, hgives.account, hgives.requiresChangeOutput, hgives.totalValue,
      hgives.feeWithoutChange, hgives.feeWithChange⟩
  · exact ⟨hid, hgives⟩

theorem gives_apply (x : Statement)
    (h : ∃ p ∈ db.pendingTransactions.rows, p.id = id ∧ p.Gives key accountId result) :
    ∃ p ∈ (x.apply db).pendingTransactions.rows, p.id = id ∧ p.Gives key accountId result := by
  rcases apply_pendingTransactions db x with heq | ⟨new, db', hc, heq⟩ | ⟨id', status', -, heq⟩
  · rwa [heq]
  · obtain ⟨row, -, -, -, -, -, _, hins, rfl⟩ := createPending_ok hc
    obtain ⟨p, hp, hrest⟩ := h
    rw [heq]
    exact ⟨p, (Table.mem_insert? hins).mpr (Or.inl hp), hrest⟩
  · rw [heq]
    exact gives_updateWhere _ _ _ h

/-- A statement that neither unlocks the request nor locks for it. -/
theorem carried_apply (hdb : Consistent db) (hunlocks : x.unlocks ≠ some id)
    (hlocks : ∀ ids, x.locks db ≠ some (id, ids)) (u : DbWalletOutput) :
    u ∈ (x.apply db).fetchOutputsByLockRequestId id ↔ u ∈ db.fetchOutputsByLockRequestId id := by
  have houtputs := outputsFrom_apply db x
  simp only [mem_fetchOutputsByLockRequestId]
  constructor
  · rintro ⟨o', ho', hcarries, rfl⟩
    obtain ⟨o, ho, hchange⟩ := houtputs.backward o' ho'
    cases hchange with
    | stays => exact ⟨o', ho, hcarries, rfl⟩
    | locks hx hid hstatus lockedAt =>
        cases hcarries
        exact absurd hx (hlocks _)
    | unlocks => cases hcarries
  · rintro ⟨o, ho, hcarries, rfl⟩
    obtain ⟨o', ho', hchange⟩ := houtputs.forward o ho
    cases hchange with
    | stays => exact ⟨o, ho', hcarries, rfl⟩
    | locks hx hid hstatus lockedAt =>
        -- an output that carries an id is not `UNSPENT`
        exact absurd hstatus (hdb.carried o ho id hcarries).1
    | unlocks hx hstatus hreq =>
        rw [hcarries] at hreq
        cases hreq
        exact absurd hx hunlocks

/-- The outputs that carry the id, as `fetch_outputs_by_lock_request_id` reads them. -/
def carriedOutputs (outputs : AutoTable OutputRow) (id : RequestId) : List DbWalletOutput :=
  (outputs.select (fun o => o.lockedByRequestId == some id)).map OutputRow.toDbWalletOutput

theorem carriedOutputs_updateWhere {outputs : AutoTable OutputRow} {p : OutputRow → Bool}
    {f : OutputRow → OutputRow} (hf : ∀ o, Sql.key (f o) = Sql.key o)
    (hview : ∀ o, (f o).lockedByRequestId = o.lockedByRequestId ∧
      (f o).toDbWalletOutput = o.toDbWalletOutput) :
    carriedOutputs (outputs.updateWhere p f hf) id = carriedOutputs outputs id := by
  refine Table.map_select_updateWhere (t := outputs.toTable) (fun o _ => ?_) (fun o _ => ?_) hf
  · rw [(hview o).1]
  · exact (hview o).2

theorem carriedOutputs_insert {outputs : AutoTable OutputRow} {m : Id → OutputRow}
    (hmk : ∀ k, Sql.key (m k) = k) (hnew : ∀ k, (m k).lockedByRequestId = none) :
    carriedOutputs (outputs.insert m hmk) id = carriedOutputs outputs id := by
  simp [carriedOutputs, Table.select, AutoTable.insert, List.filter_append, hnew]

/-- `process_block` inserts outputs without an id, and changes no output's. -/
theorem carried_rule (env : ScanEnv) (bp : BlockProcessor) (now : Timestamp)
    (block : BlockScanResult) (accountId : AccountId) (id : RequestId)
    (outputs : List DbWalletOutput) :
    BlockRule env bp now block accountId (fun _ L => carriedOutputs L.outputs id = outputs)
      (fun _ L => carriedOutputs L.outputs id = outputs)
      (fun L => carriedOutputs L.outputs id = outputs) where
  skip _ _ _ _ h := h
  credit w rest key memo payref id' db₁ db₂ _ hins h := by
    obtain ⟨timestamp, -, -, -, rfl⟩ := insertOutput_ok hins
    exact (carriedOutputs_insert (by intro _; rfl) (by intro _; rfl)).trans h
  outputsDone _ h := h
  ignore _ _ _ _ h := h
  debit hash rest info timestamp inputId db₁ _ _ h := by
    refine Eq.trans (carriedOutputs_updateWhere (by intro _; rfl) (by intro _; exact ⟨rfl, rfl⟩)) ?_
    have houtputs : (db₁.insertOrIgnoreInput accountId info.id block.height block.blockHash
        timestamp).outputs = db₁.outputs := by
      unfold Db.insertOrIgnoreInput
      split <;> rfl
    exact (congrArg (carriedOutputs · id) houtputs).trans h
  record db₁ h := by
    unfold Db.insertScannedTipBlock
    split <;> exact h
  confirm db₁ hash h :=
    (carriedOutputs_updateWhere (by intro _; rfl) (by intro _; exact ⟨rfl, rfl⟩)).trans h

/-! ## Until the second call -/

/-- What the first call has returned is still there while its pending transaction is `Pending`. -/
structure StillAnswers (key : IdempotencyKey) (accountId : AccountId) (id : RequestId)
    (utxos : List DbWalletOutput) (result : LockFundsResult) (s : WalletSystem) : Prop where
  consistent : AllConsistent s
  recorded : PendingExists s.db.pendingTransactions id
  answers : HasStatus s.db.pendingTransactions id .pending →
    Answers s.db key accountId id utxos result

/-- The statement of a lock or of the unlocker after which the transaction is `Pending`. -/
theorem stillAnswers_statement {c c' : Call}
    (hid : PendingExists s.db.pendingTransactions id)
    (hc : c.locksOrUnlocks = true)
    (hcall : CallStep env ch s.db c x c')
    (hpending : HasStatus (x.apply s.db).pendingTransactions id .pending) :
    x.unlocks ≠ some id ∧ ∀ ids, x.locks s.db ≠ some (id, ids) := by
  cases hcall with
  | lock h =>
      cases h with
      | created new result db' huuid hkey haccount hok =>
          refine ⟨fun hx => (by cases hx), fun ids hx => ?_⟩
          simp only [Statement.locks, hok, Except.toOption, Option.map_some, Option.some.injEq,
            Prod.mk.injEq] at hx
          exact createPending_fresh hok (hx.1 ▸ hid)
      | notCreated new e hfail =>
          refine ⟨fun hx => (by cases hx), fun ids hx => ?_⟩
          simp [Statement.locks, hfail, Except.toOption] at hx
      | _ => exact ⟨fun hx => (by cases hx), fun ids hx => (by cases hx)⟩
  | unlocker h =>
      cases h with
      | list now => exact ⟨fun hx => (by cases hx), fun ids hx => (by cases hx)⟩
      | expired id' rest =>
          refine ⟨fun hx => ?_, fun ids hx => (by cases hx)⟩
          -- what is unlocked is `Expired`
          cases hx
          have hset := (hasStatus_update id id .pending .expired).mp hpending
          rw [if_pos rfl] at hset
          cases hset.1
  | _ => cases hc

theorem StillAnswers.step (h : StillAnswers key accountId id utxos result s)
    (ha : LocksOrScans s a) (hstep : s.step env a = some s') :
    StillAnswers key accountId id utxos result s' := by
  have hcons := allConsistent_step h.consistent hstep
  refine ⟨hcons, pendingExists_step h.recorded hstep, fun hpending => ?_⟩
  have hbefore : HasStatus s.db.pendingTransactions id .pending := by
    by_contra hnot
    exact notPending_step h.recorded hnot hstep hpending
  obtain ⟨hrow, hcarried, hresult⟩ := h.answers hbefore
  rcases step_db hstep with hdb | ⟨i, ch, rfl⟩ | ⟨bp, block, account, now, rfl⟩ |
    ⟨account, height, webhookConfig, now, rfl⟩
  · rw [hdb]
    exact ⟨hrow, hcarried, hresult⟩
  · obtain ⟨c, x, c', hc, -, hcall, rfl⟩ := step_statement hstep
    obtain ⟨hunlocks, hlocks⟩ :=
      stillAnswers_statement h.recorded (ha c hc) hcall hpending
    exact ⟨gives_apply x hrow, fun u => (hcarried u).trans
      (carried_apply h.consistent.db hunlocks hlocks u).symm, hresult⟩
  · obtain ⟨⟨outcome, db⟩, hrun, rfl⟩ := Option.map_eq_some_iff.mp hstep
    have hsame := (processBlock_ensures (carried_rule env.toScanEnv bp now block account id
      (carriedOutputs s.db.outputs id))).of_runOk rfl hrun
    obtain ⟨-, hpendings, -⟩ := processBlock_tables hrun
    refine ⟨?_, fun u => ?_, hresult⟩
    · show ∃ p ∈ db.pendingTransactions.rows, _
      rw [hpendings]
      exact hrow
    · exact (hcarried u).trans (Iff.of_eq (congrArg (u ∈ ·) hsame.symm))
  · obtain ⟨db, rfl, houtputs, hpendings, -⟩ := step_rollbackFromHeight hstep
    refine ⟨?_, fun u => ?_, hresult⟩
    · show ∃ p ∈ db.pendingTransactions.rows, _
      rw [hpendings]
      exact gives_updateWhere _ _ _ hrow
    · have hsame : carriedOutputs db.outputs id = carriedOutputs s.db.outputs id := by
        rw [houtputs]
        exact carriedOutputs_updateWhere (by intro _; rfl) (by intro _; exact ⟨rfl, rfl⟩)
      exact (hcarried u).trans (Iff.of_eq (congrArg (u ∈ ·) hsame.symm))

/-! ## The second call -/

/-- The key is found, and the call returns from what is stored. -/
theorem StillAnswers.again (h : StillAnswers key accountId id utxos result s)
    (hpending : HasStatus s.db.pendingTransactions id .pending) {req : LockFundsRequest}
    (hkey : req.idempotencyKey = some key) (haccount : req.selector.accountId = accountId)
    (ch ch' : Choice) :
    ∃ utxos' result', Transition.run (WalletSystem.step env) s
        [.lock req, .statement s.calls.length ch, .statement s.calls.length ch'] =
          some { s with calls := s.calls ++ [.lock req (.ok id utxos' result')] } ∧
      SameFunds utxos result result' := by
  obtain ⟨⟨p, hp, hid, hgives⟩, hcarried, hresult⟩ := h.answers hpending
  obtain ⟨p', hp', hid', hstatus⟩ := hpending
  obtain rfl : p' = p := s.db.pendingTransactions.eq_of_key_eq hp' hp (hid'.trans hid.symm)
  obtain ⟨q, hfind⟩ := Table.find?_isSome (t := s.db.pendingTransactions)
    (p := fun r => r.hasKey key accountId && r.status == .pending) hp
    (by simp [PendingTransactionRow.hasKey, hgives.key, hgives.account, hstatus])
  obtain ⟨hq, hqkey⟩ := Table.find?_some hfind
  simp only [PendingTransactionRow.hasKey, Bool.and_eq_true, beq_iff_eq] at hqkey
  -- the key has one row
  obtain rfl : q = p' := by
    refine s.db.pendingTransactions.eq_of_key_eq hq hp ?_
    exact h.consistent.db.keys q.id p'.id key accountId ⟨q, hq, rfl, hqkey.1⟩
      ⟨p', hp, rfl, hgives.key, hgives.account⟩
  subst hid haccount
  refine ⟨s.db.fetchOutputsByLockRequestId q.id, {
    utxos := (s.db.fetchOutputsByLockRequestId q.id).map (·.output)
    requiresChangeOutput := q.requiresChangeOutput
    totalValue := asU64 q.totalValue
    feeWithoutChange := asU64 q.feeWithoutChange
    feeWithChange := asU64 q.feeWithChange }, ?_, ?_⟩
  · have hpend : s.db.findPendingTransactionByIdempotencyKey key req.selector.accountId = _ :=
      congrArg (Option.map _) hfind
    simp [Transition.run, WalletSystem.step, WalletSystem.begin, Call.next, LockState.next, hkey,
      hpend, Statement.apply]
  · exact {
      outputs := fun output => by simp only [hresult, List.mem_map, hcarried]
      perm := fun hnodup => by
        rw [hresult]
        exact ((List.perm_ext_iff_of_nodup (nodup_fetchOutputsByLockRequestId s.db q.id) hnodup).mpr
          (fun u => (hcarried u).symm)).map _
      requiresChangeOutput := hgives.requiresChangeOutput
      totalValue := hgives.totalValue
      feeWithoutChange := hgives.feeWithoutChange
      feeWithChange := hgives.feeWithChange }

/-- The pending transactions of the key and the account. -/
def Db.pendingTransactionsOf (db : Db) (key : IdempotencyKey) (accountId : AccountId) :
    List PendingTransactionRow :=
  db.pendingTransactions.select (·.hasKey key accountId)

theorem mem_pendingTransactionsOf {p : PendingTransactionRow} :
    p ∈ db.pendingTransactionsOf key accountId ↔
      p ∈ db.pendingTransactions.rows ∧ p.idempotencyKey = key ∧ p.accountId = accountId := by
  unfold Db.pendingTransactionsOf
  simp only [Table.mem_select, PendingTransactionRow.hasKey, Bool.and_eq_true, beq_iff_eq]

/-- A key of an account has at most one row. -/
theorem Consistent.pendingTransactionsOf (h : Consistent db) (key : IdempotencyKey)
    (accountId : AccountId) : (db.pendingTransactionsOf key accountId).length ≤ 1 := by
  have hids : ((db.pendingTransactionsOf key accountId).map Sql.key).Nodup :=
    db.pendingTransactions.nodup_select _
  have hsame : ∀ p ∈ db.pendingTransactionsOf key accountId,
      ∀ q ∈ db.pendingTransactionsOf key accountId, Sql.key p = Sql.key q := by
    intro p hp q hq
    obtain ⟨hp, hpkey⟩ := mem_pendingTransactionsOf.mp hp
    obtain ⟨hq, hqkey⟩ := mem_pendingTransactionsOf.mp hq
    exact h.keys p.id q.id key accountId ⟨p, hp, rfl, hpkey⟩ ⟨q, hq, rfl, hqkey⟩
  match hrows : db.pendingTransactionsOf key accountId with
  | [] => exact Nat.zero_le 1
  | [_] => exact Nat.le_refl 1
  | p :: q :: rest =>
      rw [hrows] at hids hsame
      have hne := List.rel_of_pairwise_cons hids (List.mem_cons_self ..)
      exact absurd (hsame p (by simp) q (by simp)) hne

/-- In every state that the wallet reaches, a key of an account has at most one pending transaction.
    When `lock` has returned funds under a key, other locks, the unlocker, blocks and rollbacks may
    follow: while its pending transaction is `Pending`, the next `lock` under the key returns the
    same funds and changes nothing. -/
theorem lock_idempotent (env : TransactionEnv) (as : List SystemAction) (s : WalletSystem)
    (hs : Transition.run (WalletSystem.step env) { db := Db.empty } as = some s) :
    (∀ key accountId, (s.db.pendingTransactionsOf key accountId).length ≤ 1) ∧
      ∀ (req : LockFundsRequest) (key : IdempotencyKey) (chs : List Choice) (s₁ : WalletSystem)
          (id : RequestId) (utxos : List DbWalletOutput) (result : LockFundsResult),
        req.idempotencyKey = some key →
        Transition.run (WalletSystem.step env) s
          (.lock req :: chs.map (.statement s.calls.length)) = some s₁ →
        s₁.calls[s.calls.length]? = some (.lock req (.ok id utxos result)) → result.Sized →
        ∀ bs s₂, Transition.Along (WalletSystem.step env) LocksOrScans s₁ bs →
          Transition.run (WalletSystem.step env) s₁ bs = some s₂ →
          HasStatus s₂.db.pendingTransactions id .pending →
          ∀ (req' : LockFundsRequest) (ch ch' : Choice), req'.idempotencyKey = some key →
            req'.selector.accountId = req.selector.accountId →
            ∃ utxos' result', Transition.run (WalletSystem.step env) s₂
                [.lock req', .statement s₂.calls.length ch, .statement s₂.calls.length ch'] =
                  some { s₂ with calls := s₂.calls ++ [.lock req' (.ok id utxos' result')] } ∧
              SameFunds utxos result result' := by
  have hcons : AllConsistent s := Transition.inv_of_steps (fun _ _ _ => allConsistent_step)
    ⟨consistent_empty, each_nil⟩ hs
  refine ⟨hcons.db.pendingTransactionsOf, ?_⟩
  intro req key chs s₁ id utxos result hkey hfirst hcall hsized bs s₂ hbs hrun hpending req' ch ch'
    hkey' haccount
  obtain ⟨t, hbegin, hrest⟩ := Transition.run_cons.mp hfirst
  have ht := allConsistent_step hcons hbegin
  cases hbegin
  have hbegun : (s.begin (.lock req .find)).calls[s.calls.length]? = some (.lock req .find) := by
    simp [WalletSystem.begin]
  obtain ⟨hcons₁, st, hst, hfound⟩ := lock_answers hkey ht hbegun trivial hrest
  obtain rfl : LockState.ok id utxos result = st := by
    have heq := hcall.symm.trans hst
    cases heq
    rfl
  have hanswers : StillAnswers key req.selector.accountId id utxos result s₁ :=
    ⟨hcons₁, hcons₁.recorded _ _ hcall id rfl, fun _ => hfound hsized⟩
  have hstill := Transition.inv_of_run (fun _ _ _ h ha hstep => h.step ha hstep) hanswers hbs hrun
  exact hstill.again hpending hkey' haccount ch ch'

/-! ## A lock whose output is spent before it is asked for again -/

/-- What a call of `lock` has returned. -/
def Call.lockResult : Call →
    Option (LockFundsRequest × RequestId × List DbWalletOutput × LockFundsResult)
  | .lock req (.ok id utxos result) => some (req, id, utxos, result)
  | _ => none

theorem eq_lock_of_lockResult {i : Nat} {req : LockFundsRequest}
    (h : s.calls[i]?.bind Call.lockResult = some (req, id, utxos, result)) :
    s.calls[i]? = some (.lock req (.ok id utxos result)) := by
  obtain ⟨c, hc, h⟩ := Option.bind_eq_some_iff.mp h
  unfold Call.lockResult at h
  split at h <;> cases h
  exact hc

/-- Account 1 is funded by a block. -/
def fundedByBlock : List SystemAction :=
  [.processBlock (BlockProcessor.withEventSender [(1, 7)] 3)
    ⟨1, 101, [(500, { outputHash := 500, value := 100000 }, 0),
      (501, { outputHash := 501, value := 90000 }, 0)], [], 1000⟩ 1 1000]

def fundedSystem : WalletSystem :=
  (Transition.run (WalletSystem.step plainTransactionEnv) { db := Db.empty } fundedByBlock).get
    (by decide +kernel)

/-- The choices of the six statements of a lock. -/
def lockChoices : List Choice := [{}, {}, {}, {}, {}, { uuid := 11 }]

/-- Output 500 is locked under a key. -/
def lockedSystem : WalletSystem :=
  (Transition.run (WalletSystem.step plainTransactionEnv) fundedSystem
    (.lock (lockRequest "a") :: lockChoices.map (.statement fundedSystem.calls.length))).get
      (by decide +kernel)

/-- Another lock, the unlocker, and a block that spends output 500 and is rolled back. -/
def lockedThenSpent : List SystemAction :=
  .lock (lockRequest "b") :: selectStatements 1 ++
    [.statement 1 { uuid := 12 }, .unlockExpiredTransactions, .statement 2 { now := 5 },
      .processBlock (BlockProcessor.withEventSender [(1, 7)] 3) ⟨2, 102, [], [500], 1001⟩ 1 1001,
      .rollbackFromHeight 1 2 none 1002]

def spentSystem : WalletSystem :=
  (Transition.run (WalletSystem.step plainTransactionEnv) lockedSystem lockedThenSpent).get
    (by decide +kernel)

theorem lockedSystem_call : lockedSystem.calls[fundedSystem.calls.length]? =
    some (.lock (lockRequest "a") (.ok 11 [⟨1, 7500, { outputHash := 500, value := 100000 }⟩]
      ⟨[{ outputHash := 500, value := 100000 }], true, 100000, 355, 620⟩)) :=
  eq_lock_of_lockResult (by decide +kernel)

/-- Then the same output is returned again. -/
theorem lock_idempotent_spent : ∃ utxos' result',
    Transition.run (WalletSystem.step plainTransactionEnv) spentSystem
        [.lock (lockRequest "a"), .statement spentSystem.calls.length {},
          .statement spentSystem.calls.length {}] =
      some { spentSystem with
        calls := spentSystem.calls ++ [.lock (lockRequest "a") (.ok 11 utxos' result')] } ∧
      SameFunds [⟨1, 7500, { outputHash := 500, value := 100000 }⟩]
        ⟨[{ outputHash := 500, value := 100000 }], true, 100000, 355, 620⟩ result' := by
  have hpending : HasStatus spentSystem.db.pendingTransactions 11 .pending := by decide +kernel
  have halong : Transition.Along (WalletSystem.step plainTransactionEnv) LocksOrScans lockedSystem
      lockedThenSpent := by decide +kernel
  have hlocked := (lock_idempotent plainTransactionEnv fundedByBlock fundedSystem
    (Option.some_get _).symm).2 (lockRequest "a") "a" lockChoices lockedSystem 11 _ _ rfl
      (Option.some_get _).symm lockedSystem_call (by decide)
  exact hlocked lockedThenSpent spentSystem halong (Option.some_get _).symm hpending
    (lockRequest "a") {} {} rfl rfl

end MinotariWallet
