import MinotariWallet.Transactions.Reservation

set_option autoImplicit false

/-! # Funds of transactions that may be live

`finalize_transaction_and_broadcast` and the monitor take an error of the transport for a rejection
by the node. The node may hold the transaction all the same, or come to hold it from a request that
is still under way. -/

namespace MinotariWallet

open Sql Processes WalletSystem

/-- The node holds the transaction, or a request with it is under way. -/
def Live (net : Network) (tx : Transaction) : Prop :=
  tx ∈ net.held ∨ ∃ m ∈ net.requests, m.2 = tx

/-- No completed transaction that the node holds is `Rejected`. -/
def NotRejectedWhileHeld (s : WalletSystem) : Prop :=
  ∀ r ∈ s.db.completedTransactions.rows, r.serializedTransaction ∈ s.network.held →
    r.status ≠ .rejected

/-- The output is `LOCKED`, for the pending transaction of the completed transaction or as one of its
    inputs. -/
def FundsOf (r : CompletedTransactionRow) (o : OutputRow) (req : RequestId) : Prop :=
  o.status = .locked ∧ o.lockedByRequestId = some req ∧
    (req = r.pendingTxId ∨ o.outputHash ∈ r.serializedTransaction.inputs)

/-- The step unlocks no funds of a transaction that may be live. -/
def KeepsFunds (env : TransactionEnv) (s : WalletSystem) (a : SystemAction) : Prop :=
  ∀ s' ∈ s.step env a, ∀ r ∈ s.db.completedTransactions.rows,
    Live s.network r.serializedTransaction → ∀ o ∈ s.db.outputs.rows, ∀ req ∈ o.lockedByRequestId,
      FundsOf r o req → ∀ o' ∈ s'.db.outputs.rows, o'.id = o.id → o'.status ≠ .unspent

namespace Call

/-- The completed transaction that the next statement marks `Rejected`. -/
def marking : Call → Option (TxId × Transaction)
  | .finalize _ signed (.markRejected _ _) => some (signed.txId, signed.transaction)
  | .monitor _ (.markRejected tx _ _) => some (tx.id, tx.serializedTransaction)
  | _ => none

/-- The completed transaction that has used up its broadcast attempts. -/
def overAttempts : Call → Option Transaction
  | .monitor _ (.rebroadcast todo) =>
    (todo.completed.head?.filter (fun tx => decide (maxBroadcastAttempts ≤ tx.broadcastAttempts))).map
      (·.serializedTransaction)
  | _ => none

/-- The completed transactions that the call works on and may mark `Rejected`, with their pending
    transactions. -/
def inHand : Call → List (TxId × Transaction × RequestId)
  | .finalize prepared signed .connect => [(signed.txId, signed.transaction, prepared.id)]
  | .finalize prepared signed (.submit _) => [(signed.txId, signed.transaction, prepared.id)]
  | .finalize prepared signed (.await _ _) => [(signed.txId, signed.transaction, prepared.id)]
  | .finalize prepared signed (.markRejected _ _) =>
    [(signed.txId, signed.transaction, prepared.id)]
  | .monitor _ (.rebroadcast todo) => listed todo.completed
  | .monitor _ (.submit tx _ todo) => listed (tx :: todo.completed)
  | .monitor _ (.await tx _ _ todo) => listed (tx :: todo.completed)
  | .monitor _ (.markRejected tx _ todo) => listed (tx :: todo.completed)
  | .monitor _ (.unlock _ _ todo) => listed todo.completed
  | .monitor _ (.recordRejected _ _ todo) => listed todo.completed
  | .monitor _ (.markBroadcasted _ todo) => listed todo.completed
  | .monitor _ (.recordBroadcast _ todo) => listed todo.completed
  | _ => []
where
  listed (rows : List CompletedTransactionRow) : List (TxId × Transaction × RequestId) :=
    rows.map (fun r => (r.id, r.serializedTransaction, r.pendingTxId))

end Call

/-- The submission did not succeed. -/
def failed : Except String TxSubmissionResponse → Bool
  | .error _ => true
  | .ok response => rejects (.ok response)

/-- The transaction that a call gives up in this step: its submission fails, or has failed too often. -/
def WalletSystem.givesUp (s : WalletSystem) : SystemAction → Option Transaction
  | .statement i _ => s.calls[i]?.bind Call.overAttempts
  | .receive i =>
    (s.calls[i]?.bind Call.awaited).bind (fun (messageId, tx) =>
      ((s.network.responses.lookup messageId).filter failed).map (fun _ => tx))
  | .transportError i false _ => (s.calls[i]?.bind Call.awaited).map (·.2)
  | _ => none

/-- The call that sends a request in this step. -/
def SystemAction.sender? : SystemAction → Option Nat
  | .send i => some i
  | _ => none

/-- The call `i` sends nothing that is `Rejected` or that another call is about to mark so. -/
def SendsSafely (s : WalletSystem) (i : Nat) : Prop :=
  ∀ c ∈ s.calls[i]?, ∀ p ∈ c.toSend,
    (∀ r ∈ s.db.completedTransactions.rows, r.serializedTransaction = p.2 → r.status ≠ .rejected) ∧
      ∀ d ∈ s.others i, ∀ q ∈ d.marking, q.2 ≠ p.2

/-- What the call `i` unlocks belongs to no completed transaction that is not `Rejected`. -/
def UnlocksSafely (s : WalletSystem) (i : Nat) : Prop :=
  ∀ c ∈ s.calls[i]?, ∀ id ∈ c.toUnlock, ∀ r ∈ s.db.completedTransactions.rows,
    ∀ o ∈ s.db.outputs.rows, FundsOf r o id → r.status = .rejected

/-- What the calls rely on without a check. -/
structure Careful (s : WalletSystem) (a : SystemAction) : Prop where
  /-- What is given up is not live. -/
  givesUp : ∀ tx ∈ s.givesUp a, ¬Live s.network tx
  sends : ∀ i ∈ a.sender?, SendsSafely s i
  unlocks : ∀ i ∈ a.caller?, UnlocksSafely s i

instance (net : Network) (tx : Transaction) : Decidable (Live net tx) := by
  unfold Live; infer_instance

instance (s : WalletSystem) : Decidable (NotRejectedWhileHeld s) := by
  unfold NotRejectedWhileHeld; infer_instance

instance (r : CompletedTransactionRow) (o : OutputRow) (req : RequestId) :
    Decidable (FundsOf r o req) := by
  unfold FundsOf; infer_instance

instance (env : TransactionEnv) (s : WalletSystem) (a : SystemAction) :
    Decidable (KeepsFunds env s a) := by
  unfold KeepsFunds; infer_instance

instance (s : WalletSystem) (i : Nat) : Decidable (SendsSafely s i) := by
  unfold SendsSafely; infer_instance

instance (s : WalletSystem) (i : Nat) : Decidable (UnlocksSafely s i) := by
  unfold UnlocksSafely; infer_instance

instance (s : WalletSystem) (a : SystemAction) : Decidable (Careful s a) :=
  decidable_of_iff ((∀ tx ∈ s.givesUp a, ¬Live s.network tx) ∧
      (∀ i ∈ a.sender?, SendsSafely s i) ∧ ∀ i ∈ a.caller?, UnlocksSafely s i)
    ⟨fun h => ⟨h.1, h.2.1, h.2.2⟩, fun h => ⟨h.givesUp, h.sends, h.unlocks⟩⟩

/-- The completed transaction is stored under the id, for the pending transaction. -/
def Stored (db : Db) (txId : TxId) (tx : Transaction) (req : RequestId) : Prop :=
  ∃ r ∈ db.completedTransactions.rows,
    r.id = txId ∧ r.serializedTransaction = tx ∧ r.pendingTxId = req

/-- What is true of a call in every state. -/
structure Tracked (s : WalletSystem) (c : Call) : Prop where
  stored : ∀ p ∈ c.inHand, Stored s.db p.1 p.2.1 p.2.2
  marking : ∀ p, c.marking = some p → ¬Live s.network p.2

structure AllTracked (s : WalletSystem) : Prop where
  calls : Each (fun _ c => Tracked s c) s.calls
  rejected : ∀ r ∈ s.db.completedTransactions.rows, r.status = .rejected →
    ¬Live s.network r.serializedTransaction

variable {env : TransactionEnv} {ch : Choice} {x : Statement} {s s' : WalletSystem} {i j : Nat}
  {c c' : Call} {a : SystemAction}

/-! ## The next state of a call -/

theorem CallStep.rejects {txId : TxId} (h : CallStep env ch s.db c x c')
    (hx : x.rejects = some txId) : ∃ tx, c.marking = some (txId, tx) := by
  cases h with
  | lock h => cases h <;> cases hx
  | start h => cases h <;> cases hx
  | finalize h => cases h <;> cases hx; exact ⟨_, rfl⟩
  | unlocker h => cases h <;> cases hx
  | monitor h => cases h <;> cases hx; exact ⟨_, rfl⟩

/-- By its own statements a call comes to mark a transaction only after too many attempts. -/
theorem CallStep.marking {p : TxId × Transaction} (h : CallStep env ch s.db c x c')
    (hc' : c'.marking = some p) : c.overAttempts = some p.2 := by
  cases h with
  | lock h => cases hc'
  | start h => cases hc'
  | finalize h => cases h <;> cases hc'
  | unlocker h => cases hc'
  | monitor h =>
      cases h with
      | exceeded tx rest reason todo htodo hattempts =>
          cases hc'
          simp [Call.overAttempts, htodo, hattempts]
      | _ => cases hc'

theorem mem_getPendingCompletedTransactions {db : Db} {accountId : AccountId}
    {r : CompletedTransactionRow} (h : r ∈ db.getPendingCompletedTransactions accountId) :
    r ∈ db.completedTransactions.rows := (Table.mem_select.mp h).1

/-- What a call has in hand it had before, or has just read or stored. -/
theorem CallStep.inHand {p : TxId × Transaction × RequestId} (h : CallStep env ch s.db c x c')
    (hc' : p ∈ c'.inHand) : p ∈ c.inHand ∨ Stored (x.apply s.db) p.1 p.2.1 p.2.2 := by
  cases h with
  | lock h => cases hc'
  | start h => cases hc'
  | finalize h =>
      cases h with
      | created new db' hid hpending htx hok =>
          rw [List.mem_singleton.mp hc', apply_createCompleted hok]
          obtain ⟨row, hrow, hreq, -, hser, -, _, hins, rfl⟩ := createCompleted_ok hok
          exact Or.inr ⟨row, (Table.mem_insert? hins).mpr (Or.inr rfl), hrow.trans hid,
            hser.trans htx, hreq.trans hpending⟩
      | connected => exact Or.inl hc'
      | _ => cases hc'
  | unlocker h => cases hc'
  | monitor h =>
      cases h with
      | list =>
          obtain ⟨r, hr, rfl⟩ := List.mem_map.mp hc'
          have hlisted := mem_getPendingCompletedTransactions (List.mem_of_mem_filter hr)
          exact Or.inr ⟨r, hlisted, rfl, rfl, rfl⟩
      | exceeded tx rest reason todo htodo hattempts =>
          refine Or.inl ?_
          show p ∈ Call.inHand.listed todo.completed
          rw [htodo]
          exact hc'
      | rebroadcast tx rest todo htodo hattempts =>
          refine Or.inl ?_
          show p ∈ Call.inHand.listed todo.completed
          rw [htodo]
          exact hc'
      | rejected tx reason todo => exact Or.inl (List.mem_cons_of_mem _ hc')
      | unlocked tx reason todo => exact Or.inl hc'
      | broadcasted tx todo => exact Or.inl hc'
      | recordedRejected tx reason todo y hy => exact Or.inl hc'
      | recordedBroadcast tx todo y hy => exact Or.inl hc'
      | _ => cases hc'

theorem Call.inHand_sent {id : RequestId} {tx : Transaction} (h : c.toSend = some (id, tx))
    (messageId : Nat) : (c.sent messageId).inHand = c.inHand ∧ (c.sent messageId).marking = none := by
  unfold Call.toSend at h
  split at h <;> cases h <;> exact ⟨rfl, rfl⟩

theorem Call.marking_none_of_toSend {m : RequestId × Transaction} (h : c.toSend = some m) :
    c.marking = none := by
  unfold Call.toSend at h
  split at h <;> cases h <;> rfl

theorem Call.inHand_retry (h : c.retry = some c') : c'.inHand = c.inHand ∧ c'.marking = none := by
  unfold Call.retry at h
  split at h <;> cases h <;> exact ⟨rfl, rfl⟩

/-- A call that a response, or the error of the transport, reaches gives its transaction up, or it
    does not mark it. -/
theorem Call.received_cases {messageId : Nat} (h : c.awaiting = some messageId)
    (result : Except String TxSubmissionResponse) :
    (∀ p ∈ (c.received result).inHand, p ∈ c.inHand) ∧
      ∀ p, (c.received result).marking = some p →
        c.awaited = some (messageId, p.2) ∧ failed result = true := by
  unfold Call.awaiting at h
  split at h <;> cases h
  · next prepared signed retries =>
      show (∀ p ∈ (Call.finalize prepared signed (.ofResponse result)).inHand, _) ∧
        ∀ p, (Call.finalize prepared signed (.ofResponse result)).marking = some p → _
      cases result with
      | error e =>
          refine ⟨fun p hp => hp, fun p hp => ?_⟩
          cases hp
          exact ⟨rfl, rfl⟩
      | ok response =>
          unfold FinalizeState.ofResponse
          dsimp only
          split
          · exact ⟨fun p hp => (by cases hp), fun p hp => (by cases hp)⟩
          · next haccepted =>
              split
              · next hreason =>
                  refine ⟨fun p hp => hp, fun p hp => ?_⟩
                  cases hp
                  exact ⟨rfl, by simp [failed, rejects, haccepted, hreason]⟩
              · exact ⟨fun p hp => (by cases hp), fun p hp => (by cases hp)⟩
  · next m tx retries todo =>
      show (∀ p ∈ (Call.monitor m (.ofResponse tx todo result)).inHand, _) ∧
        ∀ p, (Call.monitor m (.ofResponse tx todo result)).marking = some p → _
      cases result with
      | error e =>
          refine ⟨fun p hp => hp, fun p hp => ?_⟩
          cases hp
          exact ⟨rfl, rfl⟩
      | ok response =>
          unfold MonitorState.ofResponse
          dsimp only
          split
          · exact ⟨fun p hp => List.mem_cons_of_mem _ hp, fun p hp => (by cases hp)⟩
          · next hnot =>
              refine ⟨fun p hp => hp, fun p hp => ?_⟩
              cases hp
              refine ⟨rfl, ?_⟩
              simp only [Bool.or_eq_true, not_or, Bool.not_eq_true, beq_eq_false_iff_ne] at hnot
              simp [failed, rejects, hnot.1, hnot.2]

/-! ## What becomes live, and what is rejected -/

/-- Only what is sent becomes live. -/
theorem live_step {tx : Transaction} (hstep : s.step env a = some s')
    (h : Live s'.network tx) : Live s.network tx ∨
      ∃ i c id, a = .send i ∧ s.calls[i]? = some c ∧ c.toSend = some (id, tx) := by
  cases a with
  | send i =>
      obtain ⟨c, id, tx', hc, hsend, rfl⟩ := step_send hstep
      rcases h with h | ⟨m, hm, rfl⟩
      · exact Or.inl (Or.inl h)
      · rcases List.mem_append.mp hm with hm | hm
        · exact Or.inl (Or.inr ⟨m, hm, rfl⟩)
        · rw [List.mem_singleton.mp hm]
          exact Or.inr ⟨i, c, id, rfl, hc, hsend⟩
  | answer messageId result =>
      obtain ⟨tx', htx', rfl⟩ := step_answer hstep
      refine Or.inl ?_
      rcases h with h | ⟨m, hm, rfl⟩
      · dsimp only at h
        split at h
        · rcases List.mem_append.mp h with h | h
          · exact Or.inl h
          · exact Or.inr ⟨_, htx', (List.mem_singleton.mp h).symm⟩
        · exact Or.inl h
      · exact Or.inr ⟨m, List.mem_of_mem_filter hm, rfl⟩
  | finalize startCall kernelExcess sentOutputHash displayed =>
      obtain ⟨_, _, -, rfl⟩ := step_finalize hstep
      exact Or.inl h
  | statement i ch =>
      obtain ⟨_, _, _, -, -, -, rfl⟩ := step_statement hstep
      exact Or.inl h
  | receive i =>
      obtain ⟨_, _, _, -, -, -, rfl⟩ := step_receive hstep
      exact Or.inl h
  | transportError i retry message =>
      obtain ⟨_, _, -, rfl, -⟩ := step_transportError hstep
      exact Or.inl h
  | loseRequest messageId =>
      cases hstep
      refine Or.inl ?_
      rcases h with h | ⟨m, hm, rfl⟩
      · exact Or.inl h
      · exact Or.inr ⟨m, List.mem_of_mem_filter hm, rfl⟩
  | processBlock bp block accountId now =>
      obtain ⟨_, rfl, -⟩ := step_processBlock hstep
      exact Or.inl h
  | rollbackFromHeight accountId height webhookConfig now =>
      obtain ⟨_, rfl, -⟩ := step_rollbackFromHeight hstep
      exact Or.inl h
  | _ => cases hstep; exact Or.inl h

/-- Only a call that marks it rejects a completed transaction. -/
theorem rowsFrom_step (hstep : s.step env a = some s') :
    ∃ rejects, RowsFrom rejects s.db.completedTransactions s'.db.completedTransactions ∧
      ∀ txId, rejects = some txId →
        ∃ (i : Nat) (c : Call) (tx : Transaction), s.calls[i]? = some c ∧
          c.marking = some (txId, tx) := by
  rcases step_db hstep with hdb | ⟨i, ch, rfl⟩ | ⟨bp, block, accountId, now, rfl⟩ |
    ⟨accountId, height, webhookConfig, now, rfl⟩
  · rw [hdb]
    exact ⟨none, .refl _ _, fun _ h => by cases h⟩
  · obtain ⟨c, x, c', hc, -, hcall, rfl⟩ := step_statement hstep
    refine ⟨x.rejects, rowsFrom_apply s.db x, fun txId hx => ?_⟩
    obtain ⟨tx, htx⟩ := hcall.rejects hx
    exact ⟨i, c, tx, hc, htx⟩
  · obtain ⟨db, rfl, -, -, hcompleted⟩ := step_processBlock hstep
    refine ⟨none, ?_, fun _ h => by cases h⟩
    show RowsFrom none s.db.completedTransactions db.completedTransactions
    rw [hcompleted]
    exact .refl _ _
  · obtain ⟨db, rfl, -, -, hcompleted⟩ := step_rollbackFromHeight hstep
    refine ⟨none, ?_, fun _ h => by cases h⟩
    show RowsFrom none s.db.completedTransactions db.completedTransactions
    rw [hcompleted]
    exact rowsFrom_reset s.db accountId height now

theorem Stored.unique {db : Db} {txId : TxId} {tx : Transaction} {req : RequestId}
    (h : Stored db txId tx req) {r : CompletedTransactionRow}
    (hr : r ∈ db.completedTransactions.rows) (hid : r.id = txId) :
    r.serializedTransaction = tx ∧ r.pendingTxId = req := by
  obtain ⟨r', hr', hid', rfl, rfl⟩ := h
  rw [db.completedTransactions.eq_of_key_eq hr hr' (hid.trans hid'.symm)]
  exact ⟨rfl, rfl⟩

theorem Call.marking_mem_inHand {p : TxId × Transaction} (h : c.marking = some p) :
    ∃ req, (p.1, p.2, req) ∈ c.inHand := by
  unfold Call.marking at h
  split at h <;> cases h <;> exact ⟨_, List.mem_cons_self⟩

/-- What is given up in the step is what the call marks after it. -/
theorem Careful.not_live (hcareful : Careful s a) {p : TxId × Transaction}
    (hgivesUp : s.givesUp a = some p.2) (hstep : s.step env a = some s') :
    ¬Live s'.network p.2 := by
  intro hlive
  rcases live_step hstep hlive with h | ⟨i, c, id, rfl, -, -⟩
  · exact hcareful.givesUp p.2 hgivesUp h
  · cases hgivesUp

/-- A call after any step. -/
theorem Tracked.move (h : AllTracked s) (hcareful : Careful s a) (hstep : s.step env a = some s')
    (hmove : CallMove env s s' a j c') : Tracked s' c' := by
  obtain ⟨rejects, hrows, -⟩ := rowsFrom_step hstep
  have hstored : ∀ {txId tx req}, Stored s.db txId tx req → Stored s'.db txId tx req := by
    rintro txId tx req ⟨r, hr, hid, htx, hreq⟩
    obtain ⟨r', hr', hid', htx', hreq'⟩ := hrows.kept r hr
    exact ⟨r', hr', hid'.trans hid, htx'.trans htx, hreq'.trans hreq⟩
  cases hmove with
  | stay hc =>
      have hold := h.calls j c' hc
      refine ⟨fun p hp => hstored (hold.stored p hp), fun p hp hlive => ?_⟩
      rcases live_step hstep hlive with hlive | ⟨i, c, id, rfl, hi, hsend⟩
      · exact hold.marking p hp hlive
      · -- another call sends: it may not send what this one is about to mark
        obtain ⟨-, hothers⟩ := hcareful.sends i rfl c hi (id, p.2) hsend
        by_cases hij : j = i
        · subst hij
          obtain rfl : c = c' := Option.some.inj (hi.symm.trans hc)
          rw [Call.marking_none_of_toSend hsend] at hp
          cases hp
        · exact hothers c' (mem_others hij hc) p hp rfl
  | statement hc hcall hdb =>
      refine ⟨fun p hp => ?_, fun p hp => ?_⟩
      · rcases hcall.inHand hp with hp | hp
        · exact hstored ((h.calls j _ hc).stored p hp)
        · exact hdb ▸ hp
      · exact hcareful.not_live (by simp [givesUp, hc, hcall.marking hp]) hstep
  | send hc hsend =>
      obtain ⟨hhand, hmarking⟩ := Call.inHand_sent hsend s.network.nextId
      refine ⟨fun p hp => hstored ((h.calls j _ hc).stored p (hhand ▸ hp)), fun p hp => ?_⟩
      rw [hmarking] at hp
      cases hp
  | receive hc hawait hresult =>
      obtain ⟨hhand, hmarking⟩ := Call.received_cases hawait _
      refine ⟨fun p hp => hstored ((h.calls j _ hc).stored p (hhand p hp)), fun p hp => ?_⟩
      obtain ⟨hawaited, hfailed⟩ := hmarking p hp
      exact hcareful.not_live (by simp [givesUp, hc, hawaited, hresult, hfailed]) hstep
  | retry hc hretry =>
      obtain ⟨hhand, hmarking⟩ := Call.inHand_retry hretry
      refine ⟨fun p hp => hstored ((h.calls j _ hc).stored p (hhand ▸ hp)), fun p hp => ?_⟩
      rw [hmarking] at hp
      cases hp
  | fail hc hawait =>
      obtain ⟨hhand, hmarking⟩ := Call.received_cases hawait _
      refine ⟨fun p hp => hstored ((h.calls j _ hc).stored p (hhand p hp)), fun p hp => ?_⟩
      obtain ⟨hawaited, -⟩ := hmarking p hp
      exact hcareful.not_live (by simp [givesUp, hc, hawaited]) hstep
  | lock req => exact ⟨fun p hp => (by cases hp), fun p hp => (by cases hp)⟩
  | start req => exact ⟨fun p hp => (by cases hp), fun p hp => (by cases hp)⟩
  | finalize kernelExcess sentOutputHash displayed hc =>
      exact ⟨fun p hp => (by cases hp), fun p hp => (by cases hp)⟩
  | unlocker => exact ⟨fun p hp => (by cases hp), fun p hp => (by cases hp)⟩
  | monitor m => exact ⟨fun p hp => (by cases hp), fun p hp => (by cases hp)⟩

theorem allTracked_step (h : AllTracked s) (hcareful : Careful s a)
    (hstep : s.step env a = some s') : AllTracked s' := by
  refine ⟨fun j c' hj => Tracked.move h hcareful hstep (step_calls hstep hj),
    fun r' hr' hstatus hlive => ?_⟩
  obtain ⟨rejects, hrows, hrejects⟩ := rowsFrom_step hstep
  obtain ⟨r, hr, hid, htx, -, hcase⟩ := hrows.rejected r' hr' hstatus
  rw [← htx] at hlive
  rcases live_step hstep hlive with hlive | ⟨i, c, id, rfl, hi, hsend⟩
  · rcases hcase with hrejected | hmarked
    · exact h.rejected r hr hrejected hlive
    · obtain ⟨i, c, tx, hi, hmarking⟩ := hrejects r.id hmarked
      have htracked := h.calls i c hi
      obtain ⟨req, hhand⟩ := Call.marking_mem_inHand hmarking
      have hstored := htracked.stored _ hhand
      have htx : r.serializedTransaction = tx := (hstored.unique hr rfl).1
      exact htracked.marking _ hmarking (htx ▸ hlive)
  · -- a sending step marks nothing
    obtain ⟨hnot, -⟩ := hcareful.sends i rfl c hi (id, r.serializedTransaction) hsend
    obtain ⟨_, _, _, -, -, rfl⟩ := step_send hstep
    exact hnot r' hr' htx.symm hstatus

theorem notRejectedWhileHeld_of_allTracked (h : AllTracked s) : NotRejectedWhileHeld s :=
  fun r hr hheld hstatus => h.rejected r hr hstatus (Or.inl hheld)

theorem allTracked_init (hcalls : s.calls = []) (hnetwork : s.network = {}) : AllTracked s where
  calls := by rw [hcalls]; exact each_nil
  rejected r _ _ hlive := by
    rw [hnetwork] at hlive
    rcases hlive with h | ⟨m, hm, -⟩
    · cases h
    · cases hm

theorem keepsFunds_of_allTracked (h : AllTracked s) (hcareful : Careful s a) :
    KeepsFunds env s a := by
  intro s' hstep r hr hlive o ho req hreq hfunds o' ho' hid hunspent
  have hlocked : LockedBy s.db.outputs req o.id := ⟨o, ho, rfl, hfunds.1, hreq⟩
  have hnot : ¬LockedBy s'.db.outputs req o.id := by
    rintro ⟨o₁, ho₁, hid₁, hstatus, -⟩
    obtain rfl : o₁ = o' := s'.db.outputs.eq_of_key_eq ho₁ ho' (hid₁.trans hid.symm)
    rw [hunspent] at hstatus
    cases hstatus
  rcases step_db hstep with hdb | ⟨i, ch, rfl⟩ | ⟨bp, block, accountId, now, rfl⟩ |
    ⟨accountId, height, webhookConfig, now, rfl⟩
  · exact hnot (hdb ▸ hlocked)
  · obtain ⟨c, x, c', hc, -, hcall, rfl⟩ := step_statement hstep
    -- only an unlock of the request itself takes the lock away
    by_cases hx : x.unlocks = some req
    · have hrejected := hcareful.unlocks i rfl c hc req (hcall.unlocks hx) r hr o ho hfunds
      exact h.rejected r hr hrejected hlive
    · exact hnot (hlocked.apply x hx)
  · obtain ⟨db, rfl, hscanned, -, -⟩ := step_processBlock hstep
    rcases hscanned.rows o' ho' with ⟨hnew, -⟩ | ⟨o₁, ho₁, hid₁, -, -, hstatus⟩
    · rw [hid] at hnew
      exact absurd (s.db.outputs.bounded o ho) (Nat.not_le_of_lt hnew)
    · obtain rfl : o₁ = o := s.db.outputs.eq_of_key_eq ho₁ ho (hid₁.trans hid)
      rw [hunspent, hfunds.1] at hstatus
      rcases hstatus with hstatus | hstatus <;> cases hstatus
  · obtain ⟨db, rfl, houtputs, -, -⟩ := step_rollbackFromHeight hstep
    refine hnot ?_
    show LockedBy db.outputs req o.id
    rw [houtputs]
    exact hlocked.setOutputsDeleted accountId height now

/-- In every run from a state without calls and messages, whatever the network and the node do: if
    every step is careful, nothing that the node holds is `Rejected`, and no step unlocks funds of a
    transaction that the node holds or may come to hold. -/
theorem liveFunds_kept (env : TransactionEnv) (s₀ : WalletSystem) (as : List SystemAction)
    (hcalls : s₀.calls = []) (hnetwork : s₀.network = {})
    (hcareful : Transition.Along (WalletSystem.step env) Careful s₀ as) :
    Transition.Always (WalletSystem.step env) NotRejectedWhileHeld s₀ as ∧
      Transition.Along (WalletSystem.step env) (KeepsFunds env) s₀ as := by
  have hstep : ∀ s a s', AllTracked s → Careful s a → s.step env a = some s' → AllTracked s' :=
    fun _ _ _ => allTracked_step
  have hinit := allTracked_init hcalls hnetwork
  constructor
  · exact Transition.always_of_along hstep (fun _ => notRejectedWhileHeld_of_allTracked) hinit
      hcareful
  · exact Transition.along_of_along hstep (fun _ _ _ h hg _ => keepsFunds_of_allTracked h hg) hinit
      hcareful

/-! ## A response that is lost -/

/-- The node accepts the payment, but the response does not arrive. -/
def acceptedUnheard : List SystemAction :=
  prepareStatements ++ finalizeStatements 1 10 ++
    [.send 1, .answer 0 (.ok ⟨true, .other ""⟩), .loseResponse 0]

/-- The call takes the error of the transport for a rejection: three statements clean up. -/
def givenUpWhileHeld : List SystemAction :=
  acceptedUnheard ++ .transportError 1 false "connection closed" ::
    List.replicate 3 (.statement 1 { now := 11 })

/-- The call sends the request again, and hears that the node has the payment. -/
def sentAgain : List SystemAction :=
  acceptedUnheard ++ [.transportError 1 true "timeout", .send 1,
    .answer 1 (.ok ⟨false, .alreadyMined⟩), .receive 1]

/-- Then the payment that the node holds is `Rejected`, and its input unlocked. -/
theorem givenUpWhileHeld_released :
    ¬Transition.Always (WalletSystem.step plainTransactionEnv) NotRejectedWhileHeld
        { db := fundedDb } givenUpWhileHeld ∧
      ¬Transition.Along (WalletSystem.step plainTransactionEnv) (KeepsFunds plainTransactionEnv)
        { db := fundedDb } givenUpWhileHeld := by
  decide +kernel

theorem sentAgain_kept :
    Transition.Always (WalletSystem.step plainTransactionEnv) NotRejectedWhileHeld
        { db := fundedDb } sentAgain ∧
      Transition.Along (WalletSystem.step plainTransactionEnv) (KeepsFunds plainTransactionEnv)
        { db := fundedDb } sentAgain :=
  liveFunds_kept plainTransactionEnv { db := fundedDb } sentAgain rfl rfl (by decide +kernel)

end MinotariWallet
