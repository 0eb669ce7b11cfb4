import MinotariWallet.Transactions.Consistent
import MinotariWallet.Transactions.HandedOut
import MinotariWallet.Transactions.Reservation

set_option autoImplicit false

/-! # Keys whose payment has been submitted

The pending transaction of a payment that has been submitted is not `Pending`, and stays so. Then
`start_new_transaction` under its key finds nothing to resume and cannot create anything. -/

namespace MinotariWallet

open Sql Processes WalletSystem

/-- The key and the account that a call pays for. -/
def Call.paymentKey : Call → Option (IdempotencyKey × AccountId)
  | .start _ (.ok prepared) => some (prepared.idempotencyKey, prepared.accountId)
  | .start req _ => some (req.idempotencyKey, req.accountId)
  | .finalize prepared _ _ => some (prepared.idempotencyKey, prepared.accountId)
  | _ => none

/-- The pending transaction that the call has set `Completed`. -/
def Call.completes : Call → Option RequestId
  | .finalize _ _ .checkExpired => none
  | .finalize _ _ .setExpired => none
  | .finalize _ _ .setCompleted => none
  | .finalize _ _ (.expire _) => none
  | .finalize _ _ (.unlock _) => none
  | .finalize _ _ (.failed _) => none
  | .finalize prepared _ _ => some prepared.id
  | _ => none

/-- Whether the submission was for the key of the account. -/
def WalletSystem.paysFor (s : WalletSystem) (key : IdempotencyKey) (accountId : AccountId)
    (sub : Submission) : Bool :=
  match s.calls[sub.call]?.bind Call.prepared? with
  | some prepared => prepared.idempotencyKey == key && prepared.accountId == accountId
  | none => false

/-- The transactions submitted to the node by `finalize_transaction_and_broadcast` for the key of
    the account. -/
def WalletSystem.payments (s : WalletSystem) (key : IdempotencyKey) (accountId : AccountId) :
    List Transaction :=
  (s.submissions.filter (s.paysFor key accountId)).map (·.transaction)

/-- The node has a transaction of the key. -/
def Accepted (s : WalletSystem) (key : IdempotencyKey) (accountId : AccountId) : Prop :=
  ∃ tx ∈ s.payments key accountId, tx ∈ s.network.held

/-- The key has a pending transaction, which is not `Pending`. -/
def UsedUp (db : Db) (key : IdempotencyKey) (accountId : AccountId) : Prop :=
  ∃ id, HasKey db.pendingTransactions id key accountId ∧
    ¬HasStatus db.pendingTransactions id .pending

/-- How many statements the selection still has to run. -/
def Selecting.left : Selecting → Nat
  | .tip => 4
  | .totals _ => 3
  | .balance _ _ => 2
  | .fetch _ _ => 1

/-- How many statements the call still has to run at most, where it has found or created no pending
    transaction. -/
def StartState.left : StartState → Option Nat
  | .validate => some 7
  | .find => some 6
  | .selecting _ s => some (s.left + 1)
  | .create _ _ => some 1
  | .failed _ => some 0
  | _ => none

/-- What is true of a call in every state. -/
structure Keyed (db : Db) (c : Call) : Prop where
  key : ∀ id key accountId, c.pendingTxId = some id → c.paymentKey = some (key, accountId) →
    HasKey db.pendingTransactions id key accountId
  completes : ∀ id, c.completes = some id → ¬HasStatus db.pendingTransactions id .pending

structure AllKeyed (s : WalletSystem) : Prop where
  consistent : AllConsistent s
  calls : Each (fun _ c => Keyed s.db c) s.calls
  submitted : ∀ sub ∈ s.submissions, ∃ c, s.calls[sub.call]? = some c ∧
    (∀ p, c.sends = some p → p.2 = sub.transaction) ∧
    ∀ prepared, c.prepared? = some prepared →
      ¬HasStatus s.db.pendingTransactions prepared.id .pending

variable {env : TransactionEnv} {ch : Choice} {db : Db} {x : Statement} {c c' : Call}
  {s s' : WalletSystem} {a : SystemAction}

/-! ## What steps keep -/

theorem hasKey_step {id : RequestId} {key : IdempotencyKey} {accountId : AccountId}
    (h : HasKey s.db.pendingTransactions id key accountId) (hstep : s.step env a = some s') :
    HasKey s'.db.pendingTransactions id key accountId := by
  rcases step_db hstep with hdb | ⟨i, ch, rfl⟩ | ⟨bp, block, account, now, rfl⟩ |
    ⟨account, height, webhookConfig, now, rfl⟩
  · rwa [hdb]
  · obtain ⟨_, x, _, -, -, -, rfl⟩ := step_statement hstep
    exact h.apply x
  · obtain ⟨db, rfl, -, hpending, -⟩ := step_processBlock hstep
    exact hpending ▸ h
  · obtain ⟨db, rfl, -, hpending, -⟩ := step_rollbackFromHeight hstep
    show HasKey db.pendingTransactions id key accountId
    rw [hpending]
    exact (hasKey_updateWhere _ _ _ id key accountId).mpr h

/-- No step makes a pending transaction `Pending` again. -/
theorem notPending_step {id : RequestId} (hid : PendingExists s.db.pendingTransactions id)
    (h : ¬HasStatus s.db.pendingTransactions id .pending) (hstep : s.step env a = some s') :
    ¬HasStatus s'.db.pendingTransactions id .pending := by
  rcases step_db hstep with hdb | ⟨i, ch, rfl⟩ | ⟨bp, block, account, now, rfl⟩ |
    ⟨account, height, webhookConfig, now, rfl⟩
  · rwa [hdb]
  · obtain ⟨_, x, _, -, -, hcall, rfl⟩ := step_statement hstep
    exact fun hp => h (hcall.pending_of_apply hid hp)
  · obtain ⟨db, rfl, -, hpending, -⟩ := step_processBlock hstep
    exact hpending ▸ h
  · obtain ⟨db, rfl, -, hpending, -⟩ := step_rollbackFromHeight hstep
    show ¬HasStatus db.pendingTransactions id .pending
    rw [hpending, hasStatus_cancel]
    split
    · rintro ⟨hstatus, -⟩
      cases hstatus
    · exact h

theorem UsedUp.step {key : IdempotencyKey} {accountId : AccountId}
    (h : UsedUp s.db key accountId) (hstep : s.step env a = some s') :
    UsedUp s'.db key accountId := by
  obtain ⟨id, hkey, hnot⟩ := h
  exact ⟨id, hasKey_step hkey hstep, notPending_step hkey.exists hnot hstep⟩

/-! ## The calls of a key -/

theorem CallStep.paymentKey (h : CallStep env ch db c x c') : c'.paymentKey = c.paymentKey := by
  cases h with
  | start h =>
      cases h with
      | created new => split <;> rfl
      | allLocked id expiresAt utxos => unfold StartState.afterLocking; split <;> rfl
      | locked id expiresAt utxos rest utxo =>
          unfold StartState.afterLocking
          split
          · split <;> rfl
          · rfl
      | built id selectedUtxos inputs prepared hid hinputs hkey haccount =>
          exact congrArg some (Prod.ext hkey haccount)
      | _ => rfl
  | _ => rfl

theorem findPendingTransactionByIdempotencyKey_hasKey {key : IdempotencyKey} {accountId : AccountId}
    {pending : PendingTransaction}
    (h : db.findPendingTransactionByIdempotencyKey key accountId = some pending) :
    HasKey db.pendingTransactions pending.id key accountId ∧
      HasStatus db.pendingTransactions pending.id .pending := by
  obtain ⟨p, hfind, rfl⟩ := Option.map_eq_some_iff.mp h
  obtain ⟨hp, hq⟩ := Table.find?_some hfind
  simp only [PendingTransactionRow.hasKey, Bool.and_eq_true, beq_iff_eq] at hq
  exact ⟨⟨p, hp, rfl, hq.1.1, hq.1.2⟩, ⟨p, hp, rfl, hq.2⟩⟩

/-- A call finds or creates the pending transaction of its key. -/
theorem CallStep.hasKey (h : CallStep env ch db c x c') (hc : Keyed db c) {id : RequestId}
    {key : IdempotencyKey} {accountId : AccountId} (hid : c'.pendingTxId = some id)
    (hkey : c'.paymentKey = some (key, accountId)) :
    HasKey (x.apply db).pendingTransactions id key accountId := by
  rw [h.paymentKey] at hkey
  have hold : c.pendingTxId = some id → HasKey (x.apply db).pendingTransactions id key accountId :=
    fun hid => (hc.key id key accountId hid hkey).apply x
  cases h with
  | lock h => cases hkey
  | start h =>
      cases h with
      | resume pending hfind =>
          cases hid
          cases hkey
          exact (findPendingTransactionByIdempotencyKey_hasKey hfind).1.apply _
      | created new db' huuid hkeys haccount hok =>
          cases hkey
          rw [apply_createPending hok]
          refine (hasKey_createPending hok _ _ _).mpr (Or.inr ⟨?_, hkeys, haccount⟩)
          split at hid <;> cases hid <;> rfl
      | allLocked req expiresAt utxos =>
          rw [StartState.afterLocking_pendingTxId] at hid
          exact hold hid
      | locked req expiresAt utxos rest utxo =>
          refine hold ?_
          split at hid
          · rwa [StartState.afterLocking_pendingTxId] at hid
          · exact hid
      | fetched req => exact hold hid
      | built req selectedUtxos inputs prepared hprepared =>
          cases hid
          exact hold (congrArg some hprepared.symm)
      | notBuilt req selectedUtxos inputs e => exact hold hid
      | expired req e => exact hold hid
      | _ => cases hid
  | finalize h => exact hold hid
  | unlocker h => cases hkey
  | monitor h => cases hkey

theorem CallStep.completes (h : CallStep env ch db c x c') {id : RequestId}
    (hid : c'.completes = some id) :
    c.completes = some id ∨ x = .updatePendingTransactionStatus id .completed := by
  cases h with
  | lock h => cases hid
  | start h => cases hid
  | finalize h => cases h <;> cases hid <;> first | exact Or.inl rfl | exact Or.inr rfl
  | unlocker h => cases hid
  | monitor h => cases hid

theorem Call.pendingTxId_of_completes {id : RequestId} (h : c.completes = some id) :
    c.pendingTxId = some id := by
  unfold Call.completes at h
  split at h <;> cases h
  rfl

theorem Call.completes_of_toSend {id : RequestId} {tx : Transaction}
    {prepared : PreparedTransaction} (h : c.toSend = some (id, tx)) (hp : c.prepared? = some prepared) :
    c.completes = some prepared.id := by
  unfold Call.toSend at h
  split at h <;> cases h <;> cases hp
  rfl

theorem Call.completes_sent {id : RequestId} {tx : Transaction} (h : c.toSend = some (id, tx))
    (messageId : Nat) : (c.sent messageId).completes = c.completes ∧
      (c.sent messageId).paymentKey = c.paymentKey ∧
      (c.sent messageId).prepared? = c.prepared? ∧ (c.sent messageId).sends = c.sends := by
  unfold Call.toSend at h
  split at h <;> cases h <;> exact ⟨rfl, rfl, rfl, rfl⟩

theorem Call.completes_retry (h : c.retry = some c') : c'.completes = c.completes ∧
    c'.paymentKey = c.paymentKey ∧ c'.prepared? = c.prepared? ∧ c'.sends = c.sends := by
  unfold Call.retry at h
  split at h <;> cases h <;> exact ⟨rfl, rfl, rfl, rfl⟩

theorem FinalizeState.completes_ofResponse (prepared : PreparedTransaction)
    (signed : SignedTransaction) (result : Except String TxSubmissionResponse) :
    (Call.finalize prepared signed (.ofResponse result)).completes = some prepared.id := by
  cases result with
  | error e => rfl
  | ok response =>
      unfold FinalizeState.ofResponse
      dsimp only
      split
      · rfl
      · split <;> rfl

theorem Call.completes_received {messageId : Nat} (h : c.awaiting = some messageId)
    (result : Except String TxSubmissionResponse) : (c.received result).completes = c.completes ∧
      (c.received result).paymentKey = c.paymentKey ∧
      (c.received result).prepared? = c.prepared? ∧ (c.received result).sends = c.sends := by
  unfold Call.awaiting at h
  split at h <;> cases h
  · exact ⟨FinalizeState.completes_ofResponse _ _ result, rfl, rfl, rfl⟩
  · exact ⟨rfl, rfl, rfl, rfl⟩

/-- A call that only waits or sends. -/
theorem Keyed.move (hc : Keyed s'.db c) (hid : c'.pendingTxId = c.pendingTxId)
    (h : c'.completes = c.completes ∧ c'.paymentKey = c.paymentKey ∧
      c'.prepared? = c.prepared? ∧ c'.sends = c.sends) : Keyed s'.db c' where
  key id key accountId hid' hkey := hc.key id key accountId (hid ▸ hid') (h.2.1 ▸ hkey)
  completes id hid' := hc.completes id (h.1 ▸ hid')

theorem Keyed.stay (hc : Keyed s.db c)
    (hrec : ∀ id, c.pendingTxId = some id → PendingExists s.db.pendingTransactions id)
    (hstep : s.step env a = some s') : Keyed s'.db c where
  key id key accountId hid hkey := hasKey_step (hc.key id key accountId hid hkey) hstep
  completes id hid :=
    notPending_step (hrec id (Call.pendingTxId_of_completes hid)) (hc.completes id hid) hstep

theorem calls_length_step (hstep : s.step env a = some s') : s.calls.length ≤ s'.calls.length := by
  cases a with
  | finalize startCall kernelExcess sentOutputHash displayed =>
      obtain ⟨_, _, -, rfl⟩ := step_finalize hstep
      simp [WalletSystem.begin]
  | statement i ch => obtain ⟨_, _, _, -, -, -, rfl⟩ := step_statement hstep; simp
  | send i => obtain ⟨_, _, _, -, -, rfl⟩ := step_send hstep; simp
  | receive i => obtain ⟨_, _, _, -, -, -, rfl⟩ := step_receive hstep; simp
  | transportError i retry message => obtain ⟨_, _, -, rfl, -⟩ := step_transportError hstep; simp
  | answer messageId result => obtain ⟨_, -, rfl⟩ := step_answer hstep; simp
  | processBlock bp block accountId now => obtain ⟨_, rfl, -⟩ := step_processBlock hstep; simp
  | rollbackFromHeight accountId height webhookConfig now =>
      obtain ⟨_, rfl, -⟩ := step_rollbackFromHeight hstep
      simp
  | _ => cases hstep; simp [WalletSystem.begin]

/-- A call stays at its index and keeps what it finalizes. -/
theorem prepared_step {j : Nat} (hstep : s.step env a = some s') (hc : s.calls[j]? = some c) :
    ∃ c', s'.calls[j]? = some c' ∧ c'.prepared? = c.prepared? ∧ c'.sends = c.sends := by
  have hj : j < s.calls.length := (List.getElem?_eq_some_iff.mp hc).1
  have hj' : j < s'.calls.length := Nat.lt_of_lt_of_le hj (calls_length_step hstep)
  obtain ⟨c', hc'⟩ : ∃ c', s'.calls[j]? = some c' := ⟨_, List.getElem?_eq_getElem hj'⟩
  refine ⟨c', hc', ?_⟩
  have hsame : ∀ {d d' : Call}, s.calls[j]? = some d →
      d'.prepared? = d.prepared? ∧ d'.sends = d.sends →
      d'.prepared? = c.prepared? ∧ d'.sends = c.sends := by
    intro d d' hd h
    obtain rfl := Option.some.inj (hd.symm.trans hc)
    exact h
  cases step_calls hstep hc' with
  | stay hd => exact hsame hd ⟨rfl, rfl⟩
  | statement hd hcall hdb => exact hsame hd ⟨hcall.prepared?, hcall.sends⟩
  | send hd hsend => exact hsame hd (Call.completes_sent hsend _).2.2
  | receive hd hawait hresult => exact hsame hd (Call.completes_received hawait _).2.2
  | retry hd hretry => exact hsame hd (Call.completes_retry hretry).2.2
  | fail hd hawait => exact hsame hd (Call.completes_received hawait _).2.2
  | _ => exact absurd hj (Nat.lt_irrefl _)

/-- A new submission is by the call that sends. -/
theorem submissions_step {sub : Submission} (hstep : s.step env a = some s')
    (hsub : sub ∈ s'.submissions) : sub ∈ s.submissions ∨ ∃ c, a = .send sub.call ∧
      s.calls[sub.call]? = some c ∧ c.toSend = some (sub.pendingTxId, sub.transaction) := by
  cases a with
  | send i =>
      obtain ⟨c, id, tx, hc, hsend, rfl⟩ := step_send hstep
      rcases List.mem_append.mp hsub with hsub | hsub
      · exact Or.inl hsub
      · rw [List.mem_singleton.mp hsub]
        exact Or.inr ⟨c, rfl, hc, hsend⟩
  | finalize startCall kernelExcess sentOutputHash displayed =>
      obtain ⟨_, _, -, rfl⟩ := step_finalize hstep
      exact Or.inl hsub
  | statement i ch => obtain ⟨_, _, _, -, -, -, rfl⟩ := step_statement hstep; exact Or.inl hsub
  | receive i => obtain ⟨_, _, _, -, -, -, rfl⟩ := step_receive hstep; exact Or.inl hsub
  | transportError i retry message =>
      obtain ⟨_, _, -, rfl, -⟩ := step_transportError hstep
      exact Or.inl hsub
  | answer messageId result => obtain ⟨_, -, rfl⟩ := step_answer hstep; exact Or.inl hsub
  | processBlock bp block accountId now =>
      obtain ⟨_, rfl, -⟩ := step_processBlock hstep
      exact Or.inl hsub
  | rollbackFromHeight accountId height webhookConfig now =>
      obtain ⟨_, rfl, -⟩ := step_rollbackFromHeight hstep
      exact Or.inl hsub
  | _ => cases hstep; exact Or.inl hsub

theorem Call.pendingTxId_of_prepared {prepared : PreparedTransaction}
    (h : c.prepared? = some prepared) : c.pendingTxId = some prepared.id := by
  unfold Call.prepared? at h
  split at h <;> cases h
  rfl

theorem allKeyed_step (h : AllKeyed s) (hstep : s.step env a = some s') : AllKeyed s' := by
  have hstay : ∀ {j : Nat} {c : Call}, s.calls[j]? = some c → Keyed s'.db c :=
    fun hc => (h.calls _ _ hc).stay (h.consistent.recorded _ _ hc) hstep
  refine ⟨allConsistent_step h.consistent hstep, fun j c' hj => ?_, fun sub hsub => ?_⟩
  · cases step_calls hstep hj with
    | stay hc => exact hstay hc
    | statement hc hcall hdb =>
        refine ⟨fun id key accountId hid hkey => ?_, fun id hid hpending => ?_⟩
        · rw [hdb]
          exact hcall.hasKey (h.calls j _ hc) hid hkey
        · rcases hcall.completes hid with hid | rfl
          · exact (hstay hc).completes id hid hpending
          · rw [hdb] at hpending
            have hset := (hasStatus_update id id .pending .completed).mp hpending
            rw [if_pos rfl] at hset
            cases hset.1
    | send hc hsend => exact (hstay hc).move (Call.pendingTxId_sent _ _) (Call.completes_sent hsend _)
    | receive hc hawait hresult =>
        exact (hstay hc).move (Call.pendingTxId_received _ _) (Call.completes_received hawait _)
    | retry hc hretry =>
        exact (hstay hc).move (Call.pendingTxId_retry hretry) (Call.completes_retry hretry)
    | fail hc hawait =>
        exact (hstay hc).move (Call.pendingTxId_received _ _) (Call.completes_received hawait _)
    | finalize kernelExcess sentOutputHash displayed hc =>
        exact ⟨(hstay hc).key, fun id hid => (by cases hid)⟩
    | _ => exact ⟨fun id key accountId hid => (by cases hid), fun id hid => (by cases hid)⟩
  · -- what was submitted before stays so, and a new submission is by a call that has completed
    have hbefore : ∃ c, s.calls[sub.call]? = some c ∧
        (∀ p, c.sends = some p → p.2 = sub.transaction) ∧
        ∀ prepared, c.prepared? = some prepared →
          ¬HasStatus s.db.pendingTransactions prepared.id .pending := by
      rcases submissions_step hstep hsub with hsub | ⟨c, -, hc, hsend⟩
      · exact h.submitted sub hsub
      · refine ⟨c, hc, fun p hp => ?_, fun prepared hp =>
          (h.calls _ c hc).completes _ (Call.completes_of_toSend hsend hp)⟩
        unfold Call.toSend at hsend
        split at hsend
        · cases hp
          exact (Prod.mk.inj (Option.some.inj hsend)).2
        · cases hp
        · cases hsend
    obtain ⟨c, hc, hsends, hnot⟩ := hbefore
    obtain ⟨c', hc', hprepared, hsends'⟩ := prepared_step hstep hc
    refine ⟨c', hc', fun p hp => hsends p (hsends' ▸ hp), fun prepared hp => ?_⟩
    rw [hprepared] at hp
    have hrec := h.consistent.recorded _ c hc _ (Call.pendingTxId_of_prepared hp)
    exact notPending_step hrec (hnot prepared hp) hstep

/-- A payment of the key, with the call that submitted it. -/
theorem AllKeyed.payment (h : AllKeyed s) {key : IdempotencyKey} {accountId : AccountId}
    {tx : Transaction} (htx : tx ∈ s.payments key accountId) :
    ∃ (i : Nat) (prepared : PreparedTransaction) (signed : SignedTransaction) (st : FinalizeState),
      s.calls[i]? = some (.finalize prepared signed st) ∧ tx = signed.transaction ∧
      HasKey s.db.pendingTransactions prepared.id key accountId ∧
      ¬HasStatus s.db.pendingTransactions prepared.id .pending := by
  obtain ⟨sub, hsub, rfl⟩ := List.mem_map.mp htx
  obtain ⟨hsub, hpays⟩ := List.mem_filter.mp hsub
  obtain ⟨c, hc, hsends, hnot⟩ := h.submitted sub hsub
  unfold paysFor at hpays
  rw [hc, Option.bind_some] at hpays
  split at hpays
  · next prepared hprepared =>
      simp only [Bool.and_eq_true, beq_iff_eq] at hpays
      unfold Call.prepared? at hprepared
      split at hprepared <;> cases hprepared
      refine ⟨_, _, _, _, hc, (hsends _ rfl).symm, ?_, hnot _ rfl⟩
      exact (h.calls _ _ hc).key _ key accountId rfl (congrArg some (Prod.ext hpays.1 hpays.2))
  · cases hpays

/-- The key of a payment that has been submitted is used up. -/
theorem AllKeyed.usedUp (h : AllKeyed s) {key : IdempotencyKey} {accountId : AccountId}
    {tx : Transaction} (htx : tx ∈ s.payments key accountId) : UsedUp s.db key accountId := by
  obtain ⟨_, prepared, _, _, -, -, hkey, hnot⟩ := h.payment htx
  exact ⟨prepared.id, hkey, hnot⟩

/-! ## A start call under a key that is used up -/

theorem selecting_left {env : TransactionEnv} {selector : InputSelector} {st st' : Selecting}
    (h : selector.step env db st = .ok (.inl st')) : st'.left + 1 = st.left := by
  cases st with
  | tip => cases h; rfl
  | totals minHeight =>
      simp only [InputSelector.step] at h
      split at h <;> cases h
      rfl
  | balance minHeight lockedAmount =>
      simp only [InputSelector.step] at h
      split at h
      · cases h
      · split at h <;> cases h
        rfl
  | fetch minHeight total =>
      simp only [InputSelector.step] at h
      split at h <;> cases h

theorem selecting_left_pos (st : Selecting) : 0 < st.left := by
  cases st <;> exact Nat.succ_pos _

/-- Each statement brings the call closer to an error. -/
theorem StartStep.left {req : StartRequest} {st st' : StartState} (h : StartStep env ch db req st x st')
    (hdb : Consistent db) (hused : UsedUp db req.idempotencyKey req.accountId) {n : Nat}
    (hn : st.left = some n) : ∃ m, st'.left = some m ∧ m + 1 ≤ n := by
  obtain ⟨id, hkey, hnot⟩ := hused
  cases h with
  | notValid e => exact ⟨0, rfl, by cases hn; decide⟩
  | validated hcompleted => exact ⟨6, rfl, by cases hn; decide⟩
  | resume pending hfind =>
      -- what it would find is the pending transaction that is used up
      obtain ⟨hkey', hpending⟩ := findPendingTransactionByIdempotencyKey_hasKey hfind
      obtain rfl := hdb.keys _ _ _ _ hkey hkey'
      exact absurd hpending hnot
  | search expiresAt => exact ⟨5, rfl, by cases hn; decide⟩
  | selecting expiresAt st₁ st₂ hnext =>
      cases hn
      have hleft := selecting_left hnext
      exact ⟨_, rfl, by omega⟩
  | selected expiresAt st₁ selection hsel =>
      cases hn
      have hpos := selecting_left_pos st₁
      exact ⟨1, rfl, by omega⟩
  | notSelected expiresAt st₁ e =>
      cases hn
      exact ⟨0, rfl, by omega⟩
  | created new db' huuid hkeys haccount hok =>
      rw [← hkeys, ← haccount] at hkey
      exact absurd hkey (createPending_new hok id)
  | notCreated new e hfail => exact ⟨0, rfl, by cases hn; decide⟩
  | _ => cases hn

/-- A call with statements left runs the next one. -/
theorem StartState.next_isSome {env : TransactionEnv} {req : StartRequest} {st : StartState} {n : Nat}
    (hn : st.left = some (n + 1)) (ch : Choice) (db : Db) : (st.next env ch db req).isSome := by
  cases st with
  | validate =>
      simp only [StartState.next]
      split
      · rfl
      · split <;> rfl
  | find =>
      simp only [StartState.next]
      split <;> rfl
  | selecting expiresAt s =>
      simp only [StartState.next]
      split <;> rfl
  | create expiresAt selection =>
      simp only [StartState.next]
      split <;> rfl
  | _ => cases hn

/-- The state of call `j` after it has run `k` statements under a key that is used up: it has not
    been begun, or it has at most `7 - k` statements left. -/
def Refusing (key : IdempotencyKey) (accountId : AccountId) (j k : Nat) (s : WalletSystem) : Prop :=
  (s.calls[j]? = none → k = 0) ∧
    ∀ req st, s.calls[j]? = some (.start req st) → req.idempotencyKey = key →
      req.accountId = accountId → ∃ n, st.left = some n ∧ n + k ≤ 7

theorem refusing_statement {key : IdempotencyKey} {accountId : AccountId} {j k : Nat}
    (h : Refusing key accountId j k s) (hs : Consistent s.db) (hused : UsedUp s.db key accountId)
    (hstep : s.step env (.statement j ch) = some s') : Refusing key accountId j (k + 1) s' := by
  obtain ⟨c, x, c', hc, -, hcall, rfl⟩ := step_statement hstep
  have hj : j < s.calls.length := (List.getElem?_eq_some_iff.mp hc).1
  refine ⟨fun hnone => ?_, fun req st hst hkey haccount => ?_⟩
  · simp [List.getElem?_set_self hj] at hnone
  · obtain rfl : c' = .start req st := by simpa [List.getElem?_set_self hj] using hst
    cases hcall with
    | start hstart =>
        obtain ⟨n, hn, hle⟩ := h.2 _ _ hc hkey haccount
        subst hkey haccount
        obtain ⟨m, hm, hlt⟩ := hstart.left hs hused hn
        exact ⟨m, hm, by omega⟩

theorem refusing_other {key : IdempotencyKey} {accountId : AccountId} {j k : Nat}
    (h : Refusing key accountId j k s) (ha : a.caller? ≠ some j) (hstep : s.step env a = some s') :
    Refusing key accountId j k s' := by
  refine ⟨fun hnone => h.1 ?_, fun req st hst hkey haccount => ?_⟩
  · cases hc : s.calls[j]? with
    | none => rfl
    | some c =>
        obtain ⟨c', hc', -⟩ := prepared_step hstep hc
        rw [hnone] at hc'
        cases hc'
  · generalize hc' : Call.start req st = c' at hst
    cases step_calls hstep hst with
    | stay hc => exact h.2 req st (hc' ▸ hc) hkey haccount
    | statement hc hcall hdb => exact absurd rfl ha
    | send hc hsend =>
        unfold Call.toSend at hsend
        split at hsend <;> cases hsend <;> cases hc'
    | receive hc hawait hresult =>
        unfold Call.awaiting at hawait
        split at hawait <;> cases hawait <;> cases hc'
    | retry hc hretry =>
        unfold Call.retry at hretry
        split at hretry <;> cases hretry <;> cases hc'
    | fail hc hawait =>
        unfold Call.awaiting at hawait
        split at hawait <;> cases hawait <;> cases hc'
    | start req' =>
        cases hc'
        refine ⟨7, rfl, ?_⟩
        rw [h.1 (List.getElem?_eq_none (Nat.le_refl _))]
    | _ => cases hc'

/-- A call that begins when the key is used up does not return a transaction: it runs on until it
    has returned an error, which it has after seven statements. -/
theorem start_refused {key : IdempotencyKey} {accountId : AccountId} {j : Nat}
    (hs : AllConsistent s) (hused : UsedUp s.db key accountId) (hj : s.calls.length ≤ j)
    {as : List SystemAction} (hrun : Transition.run (WalletSystem.step env) s as = some s')
    {req : StartRequest} {st : StartState} (hst : s'.calls[j]? = some (.start req st))
    (hkey : req.idempotencyKey = key) (haccount : req.accountId = accountId) :
    (∀ prepared, st ≠ .ok prepared) ∧
      (∀ ch, (st.next env ch s'.db req).isSome ∨ ∃ e, st = .failed e) ∧
      (7 ≤ as.countP (fun a => a.caller? == some j) → ∃ e, st = .failed e) := by
  have hend : ∀ (as : List SystemAction) (s : WalletSystem) (k : Nat), AllConsistent s →
      UsedUp s.db key accountId → Refusing key accountId j k s →
      Transition.run (WalletSystem.step env) s as = some s' →
      Refusing key accountId j (k + as.countP (fun a => a.caller? == some j)) s' := by
    intro as
    induction as with
    | nil =>
        intro s k _ _ h hrun
        cases hrun
        exact h
    | cons a as ih =>
        intro s k hs hused h hrun
        obtain ⟨t, hstep, hrest⟩ := Transition.run_cons.mp hrun
        have hs' := allConsistent_step hs hstep
        have hused' := hused.step hstep
        by_cases ha : a.caller? = some j
        · obtain ⟨ch, rfl⟩ : ∃ ch, a = .statement j ch := by
            cases a <;> cases ha
            exact ⟨_, rfl⟩
          have h' := ih t (k + 1) hs' hused' (refusing_statement h hs.db hused hstep) hrest
          rw [List.countP_cons_of_pos (by simp [SystemAction.caller?])]
          rwa [Nat.add_assoc, Nat.add_comm 1] at h'
        · rw [List.countP_cons_of_neg (by simpa using ha)]
          exact ih t k hs' hused' (refusing_other h ha hstep) hrest
  have hbegin : Refusing key accountId j 0 s := by
    refine ⟨fun _ => rfl, fun req st hst => ?_⟩
    rw [List.getElem?_eq_none hj] at hst
    cases hst
  obtain ⟨n, hn, hle⟩ := (hend as s 0 hs hused hbegin hrun).2 req st hst hkey haccount
  rw [Nat.zero_add] at hle
  have hfailed : st.left = some 0 → ∃ e, st = .failed e := by
    intro hzero
    cases st with
    | failed e => exact ⟨e, rfl⟩
    | selecting expiresAt st₁ => cases hzero
    | _ => cases hzero
  refine ⟨fun prepared hok => ?_, fun ch => ?_, fun hseven => hfailed ?_⟩
  · rw [hok] at hn
    cases hn
  · cases n with
    | zero => exact Or.inr (hfailed hn)
    | succ m => exact Or.inl (StartState.next_isSome hn ch _)
  · have hzero : n = 0 := by omega
    rw [hn, hzero]

end MinotariWallet
