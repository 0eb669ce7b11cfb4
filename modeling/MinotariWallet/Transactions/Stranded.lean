import MinotariWallet.Transactions.OnePayment
import MinotariWallet.Transactions.Released

set_option autoImplicit false

/-! # Locks that nobody will take back

Calls, blocks and rollbacks one after the other. An output that is `LOCKED` between them is either
freed by the unlocker once its pending transaction expires, or spent by a transaction that the
monitor looks after. A rollback cancels pending transactions and leaves their locks. -/

namespace MinotariWallet

open Sql Processes WalletSystem

/-- The call has returned. -/
def Call.finished : Call → Bool
  | .lock _ (.ok _ _ _) => true
  | .lock _ (.failed _) => true
  | .start _ (.ok _) => true
  | .start _ (.failed _) => true
  | .finalize _ _ .ok => true
  | .finalize _ _ (.failed _) => true
  | .unlocker (.next []) => true
  | .monitor _ .ok => true
  | .monitor _ (.failed _) => true
  | _ => false

/-- No call is running. -/
def Idle (s : WalletSystem) : Prop := ∀ c ∈ s.calls, c.finished = true

/-- The action begins a call, or is the work of the scanner. -/
def SystemAction.begins : SystemAction → Bool
  | .lock _ => true
  | .startNewTransaction _ => true
  | .finalize _ _ _ _ => true
  | .unlockExpiredTransactions => true
  | .monitor _ => true
  | .processBlock _ _ _ _ => true
  | .rollbackFromHeight _ _ _ _ => true
  | _ => false

/-- Nothing begins while a call is running. -/
def OneAtATime (s : WalletSystem) (a : SystemAction) : Prop := a.begins = true → Idle s

/-- The pending transaction is `Pending`, or is `Completed` with a completed transaction that is
    neither `Rejected` nor `Canceled`. -/
def Backed (db : Db) (req : RequestId) : Prop :=
  HasStatus db.pendingTransactions req .pending ∨
    (HasStatus db.pendingTransactions req .completed ∧
      ∃ r ∈ db.completedTransactions.rows, r.pendingTxId = req ∧ r.status ≠ .rejected ∧
        r.status ≠ .canceled)

/-- Between the calls, each undeleted output that is `LOCKED` is locked by such a pending
    transaction. -/
def NoStranded (s : WalletSystem) : Prop :=
  Idle s → ∀ o ∈ s.db.outputs.rows, o.active = true → o.status = .locked →
    ∃ req ∈ o.lockedByRequestId, Backed s.db req

/-- A rollback deletes each output that is locked by a pending transaction that it cancels. -/
def RollbackFreesLocks (s : WalletSystem) : SystemAction → Prop
  | .rollbackFromHeight accountId height _ _ =>
    ∀ o ∈ s.db.outputs.rows, o.active = true → o.status = .locked → ∀ req ∈ o.lockedByRequestId,
      req ∈ cancelledPendingTxIds (s.db.getActiveOutputsFromHeight accountId height) →
        OutputRow.activeFrom accountId height o = true
  | _ => True

/-- The pending transaction that the call is about to unlock, now or after the next statements. -/
def Call.handles : Call → Option RequestId
  | .start _ (.expire id _) => some id
  | .start _ (.unlock id _) => some id
  | .finalize prepared _ .setExpired => some prepared.id
  | .finalize prepared _ .createCompleted => some prepared.id
  | .finalize prepared _ (.markRejected _ _) => some prepared.id
  | .finalize prepared _ (.expire _) => some prepared.id
  | .finalize prepared _ (.unlock _) => some prepared.id
  | .monitor _ (.markRejected tx _ _) => some tx.pendingTxId
  | .monitor _ (.unlock tx _ _) => some tx.pendingTxId
  | _ => none

/-- The pending transaction whose completed transaction the next statement stores. -/
def Call.storing : Call → Option RequestId
  | .finalize prepared _ .createCompleted => some prepared.id
  | _ => none

/-- What is true of a call that is running, when it is the only one. -/
structure Upright (db : Db) (c : Call) : Prop where
  locking : ∀ l, c.locking = some l → HasStatus db.pendingTransactions l.1 .pending
  storing : ∀ req, c.storing = some req → HasStatus db.pendingTransactions req .completed
  stored : ∀ p ∈ c.inHand, Stored db p.1 p.2.1 p.2.2

structure OneAtWork (s : WalletSystem) : Prop where
  consistent : AllConsistent s
  one : ∀ (i j : Nat) (c d : Call), s.calls[i]? = some c → s.calls[j]? = some d →
    c.finished = false → d.finished = false → i = j
  calls : Each (fun _ c => Upright s.db c) s.calls

/-- An output that is `LOCKED` is so for a pending transaction that is backed, or that the running
    call is about to unlock. -/
def LocksLookedAfter (s : WalletSystem) : Prop :=
  ∀ o ∈ s.db.outputs.rows, o.active = true → o.status = .locked → ∃ req,
    o.lockedByRequestId = some req ∧
      (Backed s.db req ∨ ∃ (i : Nat) (c : Call), s.calls[i]? = some c ∧ c.handles = some req)

instance (s : WalletSystem) : Decidable (Idle s) := by
  unfold Idle; infer_instance

instance (s : WalletSystem) (a : SystemAction) : Decidable (OneAtATime s a) := by
  unfold OneAtATime; infer_instance

instance (s : WalletSystem) : DecidablePred (RollbackFreesLocks s)
  | .rollbackFromHeight _ _ _ _ => inferInstanceAs (Decidable (∀ o ∈ _, _))
  | .lock _ => .isTrue trivial
  | .startNewTransaction _ => .isTrue trivial
  | .finalize _ _ _ _ => .isTrue trivial
  | .unlockExpiredTransactions => .isTrue trivial
  | .monitor _ => .isTrue trivial
  | .statement _ _ => .isTrue trivial
  | .send _ => .isTrue trivial
  | .receive _ => .isTrue trivial
  | .transportError _ _ _ => .isTrue trivial
  | .answer _ _ => .isTrue trivial
  | .loseRequest _ => .isTrue trivial
  | .loseResponse _ => .isTrue trivial
  | .processBlock _ _ _ _ => .isTrue trivial

instance (db : Db) (req : RequestId) : Decidable (Backed db req) := by
  unfold Backed; infer_instance

instance (s : WalletSystem) : Decidable (NoStranded s) := by
  unfold NoStranded; infer_instance

variable {env : TransactionEnv} {ch : Choice} {db : Db} {x : Statement} {c c' : Call}
  {s s' : WalletSystem} {a : SystemAction} {req : RequestId}

/-! ## Finished calls -/

theorem Call.next_finished (h : c.finished = true) : c.next env ch db = none := by
  unfold Call.finished at h
  split at h <;> first | rfl | cases h

theorem Call.unfinished_of_next (h : c.next env ch db = some (x, c')) : c.finished = false := by
  cases hc : c.finished with
  | false => rfl
  | true =>
      rw [Call.next_finished hc] at h
      cases h

theorem Call.unfinished_of_handles (h : c.handles = some req) : c.finished = false := by
  unfold Call.handles at h
  split at h <;> cases h <;> rfl

theorem Call.unfinished_of_toSend {m : RequestId × Transaction} (h : c.toSend = some m) :
    c.finished = false := by
  unfold Call.toSend at h
  split at h <;> cases h <;> rfl

theorem Call.unfinished_of_awaiting {messageId : Nat} (h : c.awaiting = some messageId) :
    c.finished = false := by
  unfold Call.awaiting at h
  split at h <;> cases h <;> rfl

/-- A call that has returned has nothing left to do. -/
theorem Upright.of_finished (h : c.finished = true) : Upright db c := by
  unfold Call.finished at h
  split at h <;> first
    | cases h; done
    | exact ⟨fun _ hl => (by cases hl), fun _ hl => (by cases hl), fun _ hp => (by cases hp)⟩

/-! ## One statement -/

theorem Call.marking_handles {p : TxId × Transaction} (h : c.marking = some p) :
    ∃ req, c.handles = some req ∧ (p.1, p.2, req) ∈ c.inHand := by
  unfold Call.marking at h
  split at h <;> cases h <;> exact ⟨_, rfl, List.mem_cons_self⟩

/-- What a call handles it goes on handling until it has unlocked it or stored the completed
    transaction. -/
theorem Call.handles_next (hnext : c.next env ch db = some (x, c')) (h : c.handles = some req) :
    c'.handles = some req ∨ x.unlocks = some req ∨
      ∃ new db', x = .createCompletedTransaction new ∧ new.pendingTxId = req ∧
        db.createCompleted new = .ok db' ∧ c.storing = some req := by
  unfold Call.handles at h
  split at h <;> cases h
  case h_4 prepared signed =>
    obtain ⟨⟨y, st⟩, hst, heq⟩ := Option.map_eq_some_iff.mp hnext
    cases heq
    simp only [FinalizeState.next] at hst
    split at hst
    · cases hst
      exact Or.inl rfl
    · next db' hok =>
        cases hst
        exact Or.inr (Or.inr ⟨_, db', rfl, rfl, hok, rfl⟩)
  all_goals
    cases hnext
    first
    | exact Or.inl rfl
    | exact Or.inr (Or.inl rfl)

theorem toExpire_handles (hnext : c.next env ch db = some (x, c')) (h : c.toExpire = some req) :
    c.handles = some req ∨ x.unlocks = some req := by
  unfold Call.toExpire at h
  split at h <;> cases h
  case h_4 =>
    cases hnext
    exact Or.inr rfl
  all_goals exact Or.inl rfl

theorem toComplete_handles {prepared : PreparedTransaction}
    (hnext : c.next env ch db = some (x, c')) (h : c.toComplete = some prepared)
    (hx : x.sets = some (prepared.id, .completed)) : c'.handles = some prepared.id := by
  unfold Call.toComplete at h
  split at h <;> cases h
  obtain ⟨⟨y, st⟩, hst, heq⟩ := Option.map_eq_some_iff.mp hnext
  cases heq
  simp only [FinalizeState.next] at hst
  split at hst <;> cases hst
  · cases hx
  · rfl

/-- A pending transaction that the call does not handle stays backed, or the call handles it then. -/
theorem Backed.statement (hb : Backed db req) (hc : Upright db c)
    (hnext : c.next env ch db = some (x, c')) (hnot : c.handles ≠ some req)
    (hunlocks : x.unlocks ≠ some req) : Backed (x.apply db) req ∨ c'.handles = some req := by
  have hcall := Call.next_step hnext
  by_cases hsets : ∃ status, x.sets = some (req, status)
  · obtain ⟨status, hx⟩ := hsets
    rcases hcall.sets hx with ⟨-, hexpire⟩ | ⟨rfl, prepared, hcomplete, rfl⟩
    · rcases toExpire_handles hnext hexpire with h | h
      · exact absurd h hnot
      · exact absurd h hunlocks
    · exact Or.inr (toComplete_handles hnext hcomplete hx)
  · have hkept : ∀ {status}, HasStatus db.pendingTransactions req status →
        HasStatus (x.apply db).pendingTransactions req status :=
      fun h => h.apply x (fun status hx => hsets ⟨status, hx⟩)
    refine Or.inl ?_
    rcases hb with hpending | ⟨hcompleted, r, hr, hreq, hrejected, hcanceled⟩
    · exact Or.inl (hkept hpending)
    · have hrows := rowsFrom_apply db x
      obtain ⟨r', hr', hid, -, hreq'⟩ := hrows.kept r hr
      refine Or.inr ⟨hkept hcompleted, r', hr', hreq'.trans hreq, fun h => ?_, fun h => ?_⟩
      · obtain ⟨r₁, hr₁, hid₁, -, -, hcase⟩ := hrows.rejected r' hr' h
        obtain rfl := db.completedTransactions.eq_of_key_eq hr₁ hr (hid₁.trans hid)
        rcases hcase with h | hx
        · exact hrejected h
        · -- the row is the one that the call marks, and it handles its pending transaction
          obtain ⟨tx, hmarking⟩ := hcall.rejects (s := { db }) hx
          obtain ⟨req', hhandles, hhand⟩ := Call.marking_handles hmarking
          obtain ⟨-, hreq₁⟩ := (hc.stored _ hhand).unique hr₁ rfl
          exact hnot (hhandles.trans (congrArg some (hreq₁.symm.trans hreq)))
      · obtain ⟨r₁, hr₁, hid₁, hcanceled₁⟩ := hrows.canceled r' hr' h
        obtain rfl := db.completedTransactions.eq_of_key_eq hr₁ hr (hid₁.trans hid)
        exact hcanceled hcanceled₁

/-- What a statement locks, it locks for a pending transaction that is `Pending`. -/
theorem CallStep.locks_pending (h : CallStep env ch db c x c') (hc : Upright db c) {vs : List Id}
    (hx : x.locks db = some (req, vs)) : HasStatus (x.apply db).pendingTransactions req .pending := by
  cases h with
  | lock h =>
      cases h with
      | created new result db' hid hkey haccount hok =>
          simp only [Statement.locks, hok, Except.toOption, Option.map_some, Option.some.injEq,
            Prod.mk.injEq] at hx
          rw [apply_createPendingAndLock hok, lockOutputs_pendingTransactions]
          exact (createPending_hasStatus hok _ _).mpr (Or.inr ⟨hx.1, rfl⟩)
      | notCreated new e hfail => simp [Statement.locks, hfail, Except.toOption] at hx
      | _ => cases hx
  | start h =>
      cases h with
      | locked id expiresAt utxos rest utxo =>
          cases hx
          exact hc.locking _ rfl
      | _ => cases hx
  | finalize h => cases h <;> cases hx
  | unlocker h => cases h <;> cases hx
  | monitor h => cases h <;> cases hx

theorem Upright.own (hc : Upright db c)
    (hrec : ∀ id, c.pendingTxId = some id → PendingExists db.pendingTransactions id)
    (h : CallStep env ch db c x c') : Upright (x.apply db) c' where
  locking l hl := by
    cases h with
    | lock h => cases hl
    | start h =>
        cases h with
        | created new db' huuid hkeys haccount hok =>
            rw [apply_createPending hok]
            split at hl
            · cases hl
            · cases hl
              exact (createPending_hasStatus hok _ _).mpr (Or.inr ⟨rfl, rfl⟩)
        | allLocked id expiresAt utxos =>
            unfold StartState.afterLocking at hl
            split at hl <;> cases hl
        | locked id expiresAt utxos rest utxo =>
            unfold StartState.afterLocking at hl
            split at hl
            · split at hl <;> cases hl
            · cases hl
              exact hc.locking _ rfl
        | _ => cases hl
    | finalize h => cases hl
    | unlocker h => cases hl
    | monitor h => cases hl
  storing req hreq := by
    cases h with
    | finalize h =>
        cases h with
        | setCompleted =>
            cases hreq
            refine (hasStatus_update _ _ .completed .completed).mpr ?_
            rw [if_pos rfl]
            exact ⟨rfl, hrec _ rfl⟩
        | _ => cases hreq
    | _ => cases hreq
  stored p hp := by
    rcases h.inHand (s := { db }) hp with hp | hp
    · obtain ⟨r, hr, hid, htx, hreq⟩ := hc.stored p hp
      obtain ⟨r', hr', hid', htx', hreq'⟩ := (rowsFrom_apply db x).kept r hr
      exact ⟨r', hr', hid'.trans hid, htx'.trans htx, hreq'.trans hreq⟩
    · exact hp

/-! ## One action -/

/-- What an action does to the calls and the database: one call that is running moves, by a
    statement or at the network, or nothing is running and something begins, or nothing changes. -/
inductive SystemMove (env : TransactionEnv) (s s' : WalletSystem) (a : SystemAction) : Prop where
  | statement {i : Nat} {ch : Choice} {c c' : Call} {x : Statement} (hc : s.calls[i]? = some c)
      (hnext : c.next env ch s.db = some (x, c')) (hdb : s'.db = x.apply s.db)
      (hcalls : s'.calls = s.calls.set i c')
  | network {i : Nat} {c c' : Call} (hc : s.calls[i]? = some c) (hrunning : c.finished = false)
      (hhandles : c.handles = none) (hupright : Upright s.db c → Upright s.db c')
      (hdb : s'.db = s.db) (hcalls : s'.calls = s.calls.set i c')
  | begins {c : Call} (hbegins : a.begins = true) (hupright : Upright s.db c) (hdb : s'.db = s.db)
      (hcalls : s'.calls = s.calls ++ [c])
  | scanned (hbegins : a.begins = true) (hcalls : s'.calls = s.calls)
      (houtputs : ScannedFrom s.db.outputs s'.db.outputs)
      (hpending : s'.db.pendingTransactions = s.db.pendingTransactions)
      (hcompleted : s'.db.completedTransactions = s.db.completedTransactions)
  | rolledBack {accountId : AccountId} {height : Nat} {webhookConfig : Option WebhookTriggerConfig}
      {now : Timestamp} (ha : a = .rollbackFromHeight accountId height webhookConfig now)
      (hcalls : s'.calls = s.calls)
      (houtputs : s'.db.outputs = (s.db.setOutputsDeleted accountId height now).outputs)
      (hpending : s'.db.pendingTransactions = (s.db.cancelPendingTransactionsByIds
        (cancelledPendingTxIds (s.db.getActiveOutputsFromHeight accountId height))
        .cancelled).pendingTransactions)
      (hcompleted : s'.db.completedTransactions =
        (s.db.resetMinedCompletedTransactionsFromHeight accountId height now).completedTransactions)
  | stays (hdb : s'.db = s.db) (hcalls : s'.calls = s.calls)

theorem Call.handles_none_of_toSend {m : RequestId × Transaction} (h : c.toSend = some m) :
    c.handles = none := by
  unfold Call.toSend at h
  split at h <;> cases h <;> rfl

theorem Call.handles_none_of_awaiting {messageId : Nat} (h : c.awaiting = some messageId) :
    c.handles = none := by
  unfold Call.awaiting at h
  split at h <;> cases h <;> rfl

theorem Call.awaiting_of_retry (h : c.retry = some c') : ∃ messageId, c.awaiting = some messageId := by
  unfold Call.retry at h
  split at h <;> cases h <;> exact ⟨_, rfl⟩

theorem Upright.sent {m : RequestId × Transaction} (hc : Upright db c) (h : c.toSend = some m)
    (messageId : Nat) : Upright db (c.sent messageId) := by
  obtain ⟨hhand, -⟩ := Call.inHand_sent h messageId
  refine ⟨fun l hl => ?_, fun req hreq => ?_, fun p hp => hc.stored p (hhand ▸ hp)⟩
  · unfold Call.toSend at h
    split at h <;> cases h <;> cases hl
  · unfold Call.toSend at h
    split at h <;> cases h <;> cases hreq

theorem Upright.retry (hc : Upright db c) (h : c.retry = some c') : Upright db c' := by
  obtain ⟨hhand, -⟩ := Call.inHand_retry h
  refine ⟨fun l hl => ?_, fun req hreq => ?_, fun p hp => hc.stored p (hhand ▸ hp)⟩
  · unfold Call.retry at h
    split at h <;> cases h <;> cases hl
  · unfold Call.retry at h
    split at h <;> cases h <;> cases hreq

theorem FinalizeState.ofResponse_storing (prepared : PreparedTransaction)
    (signed : SignedTransaction) (result : Except String TxSubmissionResponse) :
    (Call.finalize prepared signed (.ofResponse result)).storing = none := by
  unfold FinalizeState.ofResponse
  split
  · rfl
  · split
    · rfl
    · split <;> rfl

theorem Upright.received {messageId : Nat} (hc : Upright db c) (h : c.awaiting = some messageId)
    (result : Except String TxSubmissionResponse) : Upright db (c.received result) := by
  obtain ⟨hhand, -⟩ := Call.received_cases h result
  refine ⟨fun l hl => ?_, fun req hreq => ?_, fun p hp => hc.stored p (hhand p hp)⟩
  · unfold Call.awaiting at h
    split at h <;> cases h <;> cases hl
  · unfold Call.awaiting at h
    split at h <;> cases h
    · have hnone := (FinalizeState.ofResponse_storing _ _ _).symm.trans hreq
      cases hnone
    · cases hreq

theorem step_moves (h : s.step env a = some s') : SystemMove env s s' a := by
  cases a with
  | statement i ch =>
      obtain ⟨c, x, c', hc, hnext, -, rfl⟩ := step_statement h
      exact .statement hc hnext rfl rfl
  | send i =>
      obtain ⟨c, id, tx, hc, hsend, rfl⟩ := step_send h
      exact .network hc (Call.unfinished_of_toSend hsend) (Call.handles_none_of_toSend hsend)
        (fun hu => hu.sent hsend _) rfl rfl
  | receive i =>
      obtain ⟨c, messageId, result, hc, hawait, -, rfl⟩ := step_receive h
      exact .network hc (Call.unfinished_of_awaiting hawait) (Call.handles_none_of_awaiting hawait)
        (fun hu => hu.received hawait _) rfl rfl
  | transportError i retry message =>
      obtain ⟨c, c', hc, rfl, hcase⟩ := step_transportError h
      rcases hcase with ⟨-, hretry⟩ | ⟨-, ⟨messageId, hawait⟩, rfl⟩
      · obtain ⟨messageId, hawait⟩ := Call.awaiting_of_retry hretry
        exact .network hc (Call.unfinished_of_awaiting hawait)
          (Call.handles_none_of_awaiting hawait) (fun hu => hu.retry hretry) rfl rfl
      · exact .network hc (Call.unfinished_of_awaiting hawait)
          (Call.handles_none_of_awaiting hawait) (fun hu => hu.received hawait _) rfl rfl
  | finalize startCall kernelExcess sentOutputHash displayed =>
      obtain ⟨_, _, -, rfl⟩ := step_finalize h
      exact .begins rfl ⟨fun _ hl => (by cases hl), fun _ hr => (by cases hr),
        fun _ hp => (by cases hp)⟩ rfl rfl
  | answer messageId result =>
      obtain ⟨_, -, rfl⟩ := step_answer h
      exact .stays rfl rfl
  | loseRequest messageId => cases h; exact .stays rfl rfl
  | loseResponse messageId => cases h; exact .stays rfl rfl
  | processBlock bp block accountId now =>
      obtain ⟨_, rfl, hscanned, hpending, hcompleted⟩ := step_processBlock h
      exact .scanned rfl rfl hscanned hpending hcompleted
  | rollbackFromHeight accountId height webhookConfig now =>
      obtain ⟨_, rfl, houtputs, hpending, hcompleted⟩ := step_rollbackFromHeight h
      exact .rolledBack rfl rfl houtputs hpending hcompleted
  | _ =>
      cases h
      exact .begins rfl ⟨fun _ hl => (by cases hl), fun _ hr => (by cases hr),
        fun _ hp => (by cases hp)⟩ rfl rfl

theorem OneAtWork.others_finished (h : OneAtWork s) {i j : Nat} {d : Call}
    (hc : s.calls[i]? = some c) (hrunning : c.finished = false) (hj : j ≠ i)
    (hd : s.calls[j]? = some d) : d.finished = true := by
  cases hfinished : d.finished with
  | true => rfl
  | false => exact absurd (h.one j i d c hd hc hfinished hrunning) hj

/-- The running call moves: the others have returned. -/
theorem OneAtWork.set (h : OneAtWork s) (hconsistent : AllConsistent s') {i : Nat}
    (hc : s.calls[i]? = some c) (hrunning : c.finished = false) (hupright : Upright s'.db c')
    (hcalls : s'.calls = s.calls.set i c') : OneAtWork s' where
  consistent := hconsistent
  one j k d e hd he hdrun herun := by
    rw [hcalls] at hd he
    have hother : ∀ {j d}, (s.calls.set i c')[j]? = some d → d.finished = false → j = i := by
      intro j d hd hdrun
      rcases getElem?_set_cases hd with ⟨rfl, -⟩ | ⟨hj, hd⟩
      · rfl
      · rw [h.others_finished hc hrunning hj hd] at hdrun
        cases hdrun
    exact (hother hd hdrun).trans (hother he herun).symm
  calls := by
    rw [hcalls]
    exact h.calls.set hupright
      (fun j d hj hd _ => .of_finished (h.others_finished hc hrunning hj hd))

/-- The scanner writes while no call is running. -/
theorem OneAtWork.idle (h : OneAtWork s) (hconsistent : AllConsistent s') (hidle : Idle s)
    (hcalls : s'.calls = s.calls) : OneAtWork s' := by
  refine ⟨hconsistent, hcalls ▸ h.one, ?_⟩
  rw [hcalls]
  exact fun j d hd => .of_finished (hidle d (List.mem_of_getElem? hd))

theorem oneAtWork_step (h : OneAtWork s) (hseq : OneAtATime s a) (hstep : s.step env a = some s') :
    OneAtWork s' := by
  have hconsistent := allConsistent_step h.consistent hstep
  cases step_moves hstep with
  | @statement i ch c c' x hc hnext hdb hcalls =>
      refine h.set hconsistent hc (Call.unfinished_of_next hnext) ?_ hcalls
      rw [hdb]
      exact (h.calls i c hc).own (h.consistent.recorded i c hc) (Call.next_step hnext)
  | network hc hrunning hhandles hupright hdb hcalls =>
      exact h.set hconsistent hc hrunning (hdb ▸ hupright (h.calls _ _ hc)) hcalls
  | begins hbegins hupright hdb hcalls =>
      have hidle := hseq hbegins
      refine ⟨hconsistent, fun j k d e hd he hdrun herun => ?_, ?_⟩
      · rw [hcalls] at hd he
        rcases getElem?_append_cases hd with hd | ⟨rfl, -⟩
        · rw [hidle d (List.mem_of_getElem? hd)] at hdrun
          cases hdrun
        · rcases getElem?_append_cases he with he | ⟨rfl, -⟩
          · rw [hidle e (List.mem_of_getElem? he)] at herun
            cases herun
          · rfl
      · rw [hcalls, hdb]
        exact h.calls.append hupright (fun _ _ _ hd => hd)
  | scanned hbegins hcalls => exact h.idle hconsistent (hseq hbegins) hcalls
  | rolledBack ha hcalls => exact h.idle hconsistent (hseq (by rw [ha]; rfl)) hcalls
  | stays hdb hcalls => exact ⟨hconsistent, hcalls ▸ h.one, hcalls ▸ hdb ▸ h.calls⟩

/-! ## Locks -/

/-- The completed transaction that the call has just stored backs its pending transaction. -/
theorem Backed.stored {new : NewCompletedTransaction} {db' : Db} (hok : db.createCompleted new = .ok db')
    (hstatus : HasStatus db.pendingTransactions new.pendingTxId .completed) :
    Backed db' new.pendingTxId := by
  obtain ⟨row, -, hpending, hrow, -, -, _, hins, rfl⟩ := createCompleted_ok hok
  exact Or.inr ⟨hstatus, row, (Table.mem_insert? hins).mpr (Or.inr rfl), hpending,
    by rw [hrow]; decide, by rw [hrow]; decide⟩

theorem LocksLookedAfter.statement (h : LocksLookedAfter s) (hwork : OneAtWork s) {i : Nat}
    (hc : s.calls[i]? = some c) (hnext : c.next env ch s.db = some (x, c'))
    (hdb : s'.db = x.apply s.db) (hcalls : s'.calls = s.calls.set i c') : LocksLookedAfter s' := by
  have hself : s'.calls[i]? = some c' := by
    rw [hcalls, List.getElem?_set_self (List.getElem?_eq_some_iff.mp hc).1]
  have hupright := hwork.calls i c hc
  intro o' ho' hactive hlocked
  rw [hdb] at ho'
  obtain ⟨o, ho, hchange⟩ := (outputsFrom_apply s.db x).backward o' ho'
  cases hchange with
  | stays hkept =>
      obtain ⟨req, hreq, hafter⟩ := h o' ho hactive hlocked
      have hunlocks : x.unlocks ≠ some req := fun hx => hkept req hx ⟨hlocked, hreq⟩
      have hhandled : c.handles = some req → Backed s'.db req ∨ ∃ (j : Nat) (d : Call),
          s'.calls[j]? = some d ∧ d.handles = some req := by
        intro hhandles
        rcases Call.handles_next hnext hhandles with hnew | hx | ⟨new, db', rfl, rfl, hok, hstoring⟩
        · exact Or.inr ⟨i, c', hself, hnew⟩
        · exact absurd hx hunlocks
        · rw [hdb, apply_createCompleted hok]
          exact Or.inl (.stored hok (hupright.storing _ hstoring))
      refine ⟨req, hreq, ?_⟩
      rcases hafter with hbacked | ⟨j, d, hd, hhandles⟩
      · by_cases hhandles : c.handles = some req
        · exact hhandled hhandles
        · rcases hbacked.statement hupright hnext hhandles hunlocks with hbacked | hnew
          · exact Or.inl (hdb ▸ hbacked)
          · exact Or.inr ⟨i, c', hself, hnew⟩
      · -- the call that handles the request is the one that moves
        obtain rfl := hwork.one j i d c hd hc (Call.unfinished_of_handles hhandles)
          (Call.unfinished_of_next hnext)
        obtain rfl : d = c := Option.some.inj (hd.symm.trans hc)
        exact hhandled hhandles
  | @locks req ids hlocks hid hunspent lockedAt =>
      refine ⟨req, rfl, Or.inl (Or.inl ?_)⟩
      rw [hdb]
      exact (Call.next_step hnext).locks_pending hupright hlocks
  | unlocks => cases hlocked

/-- What is locked when no call is running is backed. -/
theorem LocksLookedAfter.noStranded (h : LocksLookedAfter s) : NoStranded s := by
  intro hidle o ho hactive hlocked
  obtain ⟨req, hreq, hbacked | ⟨i, c, hc, hhandles⟩⟩ := h o ho hactive hlocked
  · exact ⟨req, hreq, hbacked⟩
  · have hrunning := Call.unfinished_of_handles hhandles
    rw [hidle c (List.mem_of_getElem? hc)] at hrunning
    cases hrunning

/-- The outputs after a rollback that are not deleted were there before and are as they were. -/
theorem mem_rolledBack {accountId : AccountId} {height : Nat} {now : Timestamp} {o : OutputRow}
    (ho : o ∈ (db.setOutputsDeleted accountId height now).outputs.rows) (hactive : o.active = true) :
    o ∈ db.outputs.rows ∧ OutputRow.activeFrom accountId height o = false := by
  obtain ⟨o₀, ho₀, rfl⟩ := (AutoTable.mem_updateWhere (by intro _; rfl)).mp ho
  by_cases hp : OutputRow.activeFrom accountId height o₀ = true
  · rw [if_pos hp] at hactive
    simp [OutputRow.active] at hactive
  · rw [if_neg hp]
    exact ⟨ho₀, by simpa using hp⟩

/-- A rollback keeps what backs a lock, but for the pending transactions that it cancels. -/
theorem Backed.rollback {ids : List RequestId} {accountId : AccountId} {height : Nat}
    {now : Timestamp} {db' : Db} (h : Backed db req) (hreq : req ∉ ids)
    (hpending : db'.pendingTransactions =
      (db.cancelPendingTransactionsByIds ids .cancelled).pendingTransactions)
    (hcompleted : db'.completedTransactions =
      (db.resetMinedCompletedTransactionsFromHeight accountId height now).completedTransactions) :
    Backed db' req := by
  have hkept : ∀ {status}, HasStatus db.pendingTransactions req status →
      HasStatus db'.pendingTransactions req status := by
    intro status hs
    rw [hpending, hasStatus_cancel, if_neg hreq]
    exact hs
  rcases h with h | ⟨h, r, hr, hid, hrejected, hcanceled⟩
  · exact Or.inl (hkept h)
  · refine Or.inr ⟨hkept h, ?_⟩
    have hrows := rowsFrom_reset db accountId height now
    obtain ⟨r', hr', hid', -, hreq'⟩ := hrows.kept r hr
    rw [hcompleted]
    refine ⟨r', hr', hreq'.trans hid, fun hs => ?_, fun hs => ?_⟩
    · obtain ⟨r₁, hr₁, hid₁, -, -, hs₁ | hnone⟩ := hrows.rejected r' hr' hs
      · obtain rfl := db.completedTransactions.eq_of_key_eq hr₁ hr (hid₁.trans hid')
        exact hrejected hs₁
      · cases hnone
    · obtain ⟨r₁, hr₁, hid₁, hs₁⟩ := hrows.canceled r' hr' hs
      obtain rfl := db.completedTransactions.eq_of_key_eq hr₁ hr (hid₁.trans hid')
      exact hcanceled hs₁

theorem locksLookedAfter_step (h : LocksLookedAfter s) (hwork : OneAtWork s)
    (hseq : OneAtATime s a) (hfrees : RollbackFreesLocks s a) (hstep : s.step env a = some s') :
    LocksLookedAfter s' := by
  cases step_moves hstep with
  | statement hc hnext hdb hcalls => exact h.statement hwork hc hnext hdb hcalls
  | @network i c c' hc hrunning hnone hupright hdb hcalls =>
      intro o ho hactive hlocked
      rw [hdb] at ho ⊢
      obtain ⟨req, hreq, hbacked | ⟨j, d, hd, hhandles⟩⟩ := h o ho hactive hlocked
      · exact ⟨req, hreq, Or.inl hbacked⟩
      · -- a call at the network handles nothing
        obtain rfl := hwork.one j i d c hd hc (Call.unfinished_of_handles hhandles) hrunning
        obtain rfl : d = c := Option.some.inj (hd.symm.trans hc)
        rw [hnone] at hhandles
        cases hhandles
  | begins hbegins hupright hdb hcalls =>
      intro o ho hactive hlocked
      rw [hdb] at ho ⊢
      obtain ⟨req, hreq, hbacked⟩ := h.noStranded (hseq hbegins) o ho hactive hlocked
      exact ⟨req, hreq, Or.inl hbacked⟩
  | scanned hbegins hcalls houtputs hpending hcompleted =>
      intro o' ho' hactive hlocked
      rcases houtputs.rows o' ho' with ⟨-, hnot, -⟩ | ⟨o, ho, -, hreq', hactive', hstatus⟩
      · exact absurd hlocked hnot
      · rcases hstatus with hstatus | hspent
        · obtain ⟨req, hreq, hbacked⟩ := h.noStranded (hseq hbegins) o ho (hactive' ▸ hactive)
            (hstatus ▸ hlocked)
          refine ⟨req, hreq'.trans hreq, Or.inl ?_⟩
          unfold Backed
          rw [hpending, hcompleted]
          exact hbacked
        · rw [hspent] at hlocked
          cases hlocked
  | rolledBack ha hcalls houtputs hpending hcompleted =>
      subst ha
      intro o ho hactive hlocked
      rw [houtputs] at ho
      obtain ⟨ho, hkept⟩ := mem_rolledBack ho hactive
      obtain ⟨req, hreq, hbacked⟩ := h.noStranded (hseq rfl) o ho hactive hlocked
      refine ⟨req, hreq, Or.inl (hbacked.rollback (fun hcancelled => ?_) hpending hcompleted)⟩
      rw [hfrees o ho hactive hlocked req hreq hcancelled] at hkept
      cases hkept
  | stays hdb hcalls =>
      intro o ho hactive hlocked
      rw [hdb] at ho ⊢
      rw [hcalls]
      exact h o ho hactive hlocked

/-- A rollback that leaves the lock of a request that it cancels strands the output. -/
theorem rollbackFreesLocks_of_noStranded (hseq : OneAtATime s a) (hstep : s.step env a = some s')
    (h : NoStranded s') : RollbackFreesLocks s a := by
  unfold RollbackFreesLocks
  split
  · next accountId height webhookConfig now =>
      intro o ho hactive hlocked req hreq hcancelled
      obtain ⟨db, rfl, houtputs, hpending, -⟩ := step_rollbackFromHeight hstep
      by_contra hkept
      have ho' : o ∈ db.outputs.rows := by
        rw [houtputs]
        exact (AutoTable.mem_updateWhere (by intro _; rfl)).mpr ⟨o, ho, if_neg hkept⟩
      obtain ⟨req', hreq', hbacked⟩ := h (hseq rfl) o ho' hactive hlocked
      obtain rfl : req' = req := Option.some.inj (hreq'.symm.trans hreq)
      have hstatus : ∀ {status}, HasStatus db.pendingTransactions req' status →
          PendingTransactionStatus.cancelled = status := by
        intro status hs
        rw [hpending, hasStatus_cancel, if_pos hcancelled] at hs
        exact hs.1
      rcases hbacked with hs | ⟨hs, -⟩
      · cases hstatus hs
      · cases hstatus hs
  · trivial

/-- In every run of calls, blocks and rollbacks one after the other: no lock is stranded in any state
    between them if and only if each rollback deletes every output that is locked by a pending
    transaction it cancels. -/
theorem locks_never_stranded_iff (env : TransactionEnv) (as : List SystemAction)
    (hseq : Transition.Along (WalletSystem.step env) OneAtATime { db := Db.empty } as) :
    Transition.Always (WalletSystem.step env) NoStranded { db := Db.empty } as ↔
      Transition.Along (WalletSystem.step env) RollbackFreesLocks { db := Db.empty } as := by
  constructor
  · intro h
    refine Transition.along_of_always (I := fun _ => True) (fun _ _ _ _ _ _ _ => trivial) ?_
      trivial hseq h
    exact fun _ _ _ _ _ hone hstep hnext => rollbackFreesLocks_of_noStranded hone hstep hnext
  · intro hfrees
    refine Transition.always_of_along (I := fun s => OneAtWork s ∧ LocksLookedAfter s) ?_
      (fun _ h => h.2.noStranded) ?_ (hseq.and hfrees)
    · rintro s a s' ⟨hwork, hlocks⟩ ⟨hone, hfree⟩ hstep
      exact ⟨oneAtWork_step hwork hone hstep, locksLookedAfter_step hlocks hwork hone hfree hstep⟩
    · refine ⟨⟨⟨consistent_empty, each_nil⟩, fun i j c d hc => ?_, each_nil⟩, fun o ho => ?_⟩
      · cases hc
      · cases ho

/-! ## A fork between the inputs -/

/-- Account 1 receives an output in each of two blocks and locks both for 150000. -/
def lockedOverFork : List SystemAction :=
  let bp := BlockProcessor.withEventSender [(1, 7)] 3
  [.processBlock bp ⟨1, 101, [(500, { outputHash := 500, value := 100000 }, 0)], [], 1000⟩ 1 1000,
    .processBlock bp ⟨2, 102, [(501, { outputHash := 501, value := 90000 }, 0)], [], 1120⟩ 1 1120,
    .lock { lockRequest "a" with selector := ⟨1, 0, 150000, 1, 5, none⟩ }] ++
    List.replicate 5 (.statement 0 {}) ++ [.statement 0 { uuid := 11 }]

/-- When the second block is rolled back the request is cancelled, and the output of the first one
    stays `LOCKED` for it. -/
theorem lockedOverFork_stranded :
    Transition.Along (WalletSystem.step plainTransactionEnv) OneAtATime { db := Db.empty }
        (lockedOverFork ++ [.rollbackFromHeight 1 2 none 1200]) ∧
      ¬Transition.Always (WalletSystem.step plainTransactionEnv) NoStranded { db := Db.empty }
        (lockedOverFork ++ [.rollbackFromHeight 1 2 none 1200]) := by
  decide +kernel

/-- When both blocks are rolled back no lock is left. -/
theorem lockedOverFork_freed :
    Transition.Always (WalletSystem.step plainTransactionEnv) NoStranded { db := Db.empty }
        (lockedOverFork ++ [.rollbackFromHeight 1 1 none 1200]) ∧
      ∃ s, Transition.run (WalletSystem.step plainTransactionEnv) { db := Db.empty }
        lockedOverFork = some s ∧
          decide (∃ o ∈ s.db.outputs.rows, o.active = true ∧ o.status = .locked) = true := by
  refine ⟨(locks_never_stranded_iff plainTransactionEnv _ (by decide +kernel)).mpr
    (by decide +kernel), ?_⟩
  exact Transition.exists_run_of_any (f := WalletSystem.step plainTransactionEnv)
    (s := { db := Db.empty }) (l := lockedOverFork)
    (q := fun s => decide (∃ o ∈ s.db.outputs.rows, o.active = true ∧ o.status = .locked))
    (by decide +kernel)

end MinotariWallet
