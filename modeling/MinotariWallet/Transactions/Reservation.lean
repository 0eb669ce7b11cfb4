import MinotariWallet.Transactions.HandedOut
import MinotariWallet.Transactions.Messages

set_option autoImplicit false

/-! # Reservations and broadcasts

`finalize_transaction_and_broadcast` checks for expiry, sets the pending transaction `Completed` and
sends, in separate statements, and the expiry check counts only rows that are still `Pending`. Other
calls expire, cancel and unlock by id, whatever the status is. -/

namespace MinotariWallet

open Sql Processes WalletSystem

namespace Call

/-- What the call finalizes. -/
def prepared? : Call → Option PreparedTransaction
  | .finalize prepared _ _ => some prepared
  | _ => none

/-- The pending transaction and the transaction of a finalize call. -/
def sends : Call → Option (RequestId × Transaction)
  | .finalize prepared signed _ => some (prepared.id, signed.transaction)
  | _ => none

/-- What the call has set `Completed` and may still send. -/
def finalizing : Call → Option PreparedTransaction
  | .finalize prepared _ .createCompleted => some prepared
  | .finalize prepared _ .connect => some prepared
  | .finalize prepared _ (.submit _) => some prepared
  | .finalize prepared _ (.await _ _) => some prepared
  | _ => none

/-- Where the call has sent nothing, or is about to release what it sent. -/
def releasing : Call → Bool
  | .finalize _ _ .checkExpired => true
  | .finalize _ _ .setExpired => true
  | .finalize _ _ .setCompleted => true
  | .finalize _ _ .createCompleted => true
  | .finalize _ _ .connect => true
  | .finalize _ _ (.markRejected _ _) => true
  | .finalize _ _ (.expire _) => true
  | .finalize _ _ (.unlock _) => true
  | _ => false

/-- The pending transaction that a failed call has set `Expired` and unlocks next. -/
def unlocking : Call → Option RequestId
  | .start _ (.unlock id _) => some id
  | .finalize prepared _ (.unlock _) => some prepared.id
  | _ => none

def monitors : Call → Bool
  | .monitor _ _ => true
  | _ => false

end Call

/-- `start_new_transaction`, `finalize_transaction_and_broadcast`, the unlocker, `lock` and
    rollbacks, with the messages. -/
def SystemAction.finalizes : SystemAction → Bool
  | .monitor _ => false
  | .processBlock _ _ _ _ => false
  | _ => true

/-- The pending transaction has been expired or cancelled. -/
def Ended (pendingTransactions : Table PendingTransactionRow) (id : RequestId) : Prop :=
  HasStatus pendingTransactions id .expired ∨ HasStatus pendingTransactions id .cancelled

/-- Whenever a finalize call of the run submits, its pending transaction has never been expired or
    cancelled, and its inputs are locked for it. -/
def SubmitsReserved (env : TransactionEnv) (s₀ : WalletSystem) (as : List SystemAction) : Prop :=
  ∀ bs i cs s prepared signed retries, as = bs ++ .send i :: cs →
    Transition.run (WalletSystem.step env) s₀ bs = some s →
    s.calls[i]? = some (.finalize prepared signed (.submit retries)) →
    Transition.Always (WalletSystem.step env)
        (fun t => ¬Ended t.db.pendingTransactions prepared.id) s₀ bs ∧
      ∀ u ∈ prepared.inputs, LockedBy s.db.outputs prepared.id u.id

/-- The inputs of what has been submitted, and the node has not rejected, are not `UNSPENT`. -/
def KeepsReserved (s : WalletSystem) : Prop :=
  ∀ sub ∈ s.submissions, sub.transaction ∉ s.network.rejected →
    ∀ c ∈ s.calls[sub.call]?, ∀ prepared ∈ c.prepared?, ∀ u ∈ prepared.inputs,
      ∀ o ∈ s.db.outputs.rows, o.id = u.id → o.status ≠ .unspent

/-- The call whose `submit_transaction` returns an error in this step. -/
def WalletSystem.failsSubmission (s : WalletSystem) : SystemAction → Option Nat
  | .transportError i false _ => some i
  | .receive i =>
    match (s.calls[i]?.bind Call.awaiting).bind (s.network.responses.lookup ·) with
    | some (.error _) => some i
    | _ => none
  | _ => none

/-- The pending transactions that the step cancels. -/
def WalletSystem.cancels (s : WalletSystem) : SystemAction → List RequestId
  | .rollbackFromHeight accountId height _ _ =>
    cancelledPendingTxIds (s.db.getActiveOutputsFromHeight accountId height)
  | _ => []

/-- The pending transaction is `Pending` (or `Completed`) and its inputs are locked for it. -/
def StillReserved (db : Db) (prepared : PreparedTransaction) : Prop :=
  (HasStatus db.pendingTransactions prepared.id .pending ∨
    HasStatus db.pendingTransactions prepared.id .completed) ∧
  ∀ u ∈ prepared.inputs, LockedBy db.outputs prepared.id u.id

/-- No call but call `i` finalizes the pending transaction, and the node has rejected what another
    call sent for it. -/
def FreeBeside (s : WalletSystem) (i : Nat) (id : RequestId) : Prop :=
  (∀ d ∈ s.others i, ∀ prepared ∈ d.finalizing, prepared.id ≠ id) ∧
  ∀ sub ∈ s.submissions, sub.call ≠ i → sub.pendingTxId = id →
    sub.transaction ∈ s.network.rejected

/-- The gaps that a step must not fall into. -/
structure Undisturbed (s : WalletSystem) (a : SystemAction) : Prop where
  /-- What is set `Completed` is still reserved. -/
  completes : ∀ i ∈ a.caller?, ∀ c ∈ s.calls[i]?, ∀ prepared ∈ c.toComplete,
    StillReserved s.db prepared
  /-- What is set `Expired` is in no other call's hands. -/
  expires : ∀ i ∈ a.caller?, ∀ c ∈ s.calls[i]?, ∀ id ∈ c.toExpire, FreeBeside s i id
  /-- What is cancelled is not being finalized. -/
  cancels : ∀ id ∈ s.cancels a, ∀ d ∈ s.calls, ∀ prepared ∈ d.finalizing, prepared.id ≠ id
  /-- A submission that returns an error has been rejected by the node. -/
  fails : ∀ i ∈ s.failsSubmission a, ∀ c ∈ s.calls[i]?, ∀ p ∈ c.sends,
    p.2 ∈ s.network.rejected

instance (s : WalletSystem) : Decidable (KeepsReserved s) := by
  unfold KeepsReserved
  refine @List.decidableBAll _ _ (fun sub => ?_) s.submissions
  refine @forall_prop_decidable _ _ inferInstance (fun _ => ?_)
  infer_instance

instance (db : Db) (prepared : PreparedTransaction) : Decidable (StillReserved db prepared) := by
  unfold StillReserved; infer_instance

instance (s : WalletSystem) (i : Nat) (id : RequestId) : Decidable (FreeBeside s i id) := by
  unfold FreeBeside; infer_instance

instance (s : WalletSystem) (a : SystemAction) : Decidable (Undisturbed s a) :=
  decidable_of_iff
    ((∀ i ∈ a.caller?, ∀ c ∈ s.calls[i]?, ∀ prepared ∈ c.toComplete, StillReserved s.db prepared) ∧
      (∀ i ∈ a.caller?, ∀ c ∈ s.calls[i]?, ∀ id ∈ c.toExpire, FreeBeside s i id) ∧
      (∀ id ∈ s.cancels a, ∀ d ∈ s.calls, ∀ prepared ∈ d.finalizing, prepared.id ≠ id) ∧
      ∀ i ∈ s.failsSubmission a, ∀ c ∈ s.calls[i]?, ∀ p ∈ c.sends, p.2 ∈ s.network.rejected)
    ⟨fun ⟨h₁, h₂, h₃, h₄⟩ => ⟨h₁, h₂, h₃, h₄⟩, fun ⟨h₁, h₂, h₃, h₄⟩ => ⟨h₁, h₂, h₃, h₄⟩⟩

/-- What is true of a call in every state. -/
structure Guarded (s : WalletSystem) (j : Nat) (c : Call) : Prop where
  calls : c.monitors = false
  recorded : ∀ id, c.pendingTxId = some id → PendingExists s.db.pendingTransactions id
  completed : ∀ prepared, c.finalizing = some prepared →
    HasStatus s.db.pendingTransactions prepared.id .completed
  locked : ∀ prepared, c.finalizing = some prepared →
    ∀ u ∈ prepared.inputs, LockedBy s.db.outputs prepared.id u.id
  sent : ∀ sub ∈ s.submissions, sub.call = j → c.sends = some (sub.pendingTxId, sub.transaction)
  kept : ∀ sub ∈ s.submissions, sub.call = j → sub.transaction ∉ s.network.rejected →
    ∀ prepared, c.prepared? = some prepared →
      ∀ u ∈ prepared.inputs, LockedBy s.db.outputs prepared.id u.id
  releasing : c.releasing = true → ∀ sub ∈ s.submissions, sub.call = j →
    sub.transaction ∈ s.network.rejected
  unlocking : ∀ id, c.unlocking = some id →
    ¬HasStatus s.db.pendingTransactions id .pending ∧
    ¬HasStatus s.db.pendingTransactions id .completed ∧
    ∀ sub ∈ s.submissions, sub.pendingTxId = id → sub.transaction ∈ s.network.rejected

structure AllGuarded (s : WalletSystem) : Prop where
  messages : MessagesMatch s
  guarded : Each (Guarded s) s.calls
  callers : ∀ sub ∈ s.submissions, sub.call < s.calls.length

variable {env : TransactionEnv} {ch : Choice} {x : Statement} {s s' : WalletSystem} {i j : Nat}
  {c c' q : Call} {a : SystemAction}

/-! ## What the next state of a call is -/

theorem Call.pendingTxId_of_unlocking {id : RequestId} (h : c.unlocking = some id) :
    c.pendingTxId = some id := by
  unfold Call.unlocking at h
  split at h <;> cases h <;> rfl

theorem CallStep.monitors (h : CallStep env ch s.db c x c') : c'.monitors = c.monitors := by
  cases h <;> rfl

theorem CallStep.sends (h : CallStep env ch s.db c x c') : c'.sends = c.sends := by
  cases h <;> rfl

theorem CallStep.prepared? (h : CallStep env ch s.db c x c') : c'.prepared? = c.prepared? := by
  cases h <;> rfl

/-- A call gets to release only from where it did before, by its own statements. -/
theorem CallStep.releasing (h : CallStep env ch s.db c x c') (hc' : c'.releasing = true) :
    c.releasing = true := by
  cases h with
  | lock h => cases hc'
  | start h => cases hc'
  | finalize h => cases h <;> first | rfl | cases hc'
  | unlocker h => cases hc'
  | monitor h => cases hc'

/-- A call finalizes from the statement on that sets the pending transaction `Completed`. -/
theorem CallStep.finalizing {prepared : PreparedTransaction} (h : CallStep env ch s.db c x c')
    (hc' : c'.finalizing = some prepared) :
    (c.finalizing = some prepared ∧ x.sets = none) ∨
      (c.toComplete = some prepared ∧
        x = .updatePendingTransactionStatus prepared.id .completed) := by
  cases h with
  | lock h => cases hc'
  | start h => cases hc'
  | finalize h =>
      cases h with
      | setCompleted => cases hc'; exact Or.inr ⟨rfl, rfl⟩
      | created new db' hid hpending htx hok => exact Or.inl ⟨hc', rfl⟩
      | connected => exact Or.inl ⟨hc', rfl⟩
      | _ => cases hc'
  | unlocker h => cases hc'
  | monitor h => cases hc'

/-- A failed call unlocks what it has just set `Expired`. -/
theorem CallStep.unlocking {id : RequestId} (h : CallStep env ch s.db c x c')
    (hc' : c'.unlocking = some id) :
    c.toExpire = some id ∧ x = .updatePendingTransactionStatus id .expired ∧
      (c.prepared?.isSome = true → c.releasing = true) := by
  cases h with
  | lock h => cases hc'
  | start h =>
      cases h with
      | created new db' hid hkey haccount hok => split at hc' <;> cases hc'
      | allLocked req expiresAt utxos =>
          unfold StartState.afterLocking at hc'
          split at hc' <;> cases hc'
      | locked req expiresAt utxos rest utxo =>
          unfold StartState.afterLocking at hc'
          split at hc'
          · split at hc' <;> cases hc'
          · cases hc'
      | expired req e => cases hc'; exact ⟨rfl, rfl, fun h => by cases h⟩
      | _ => cases hc'
  | finalize h =>
      cases h with
      | expired e => cases hc'; exact ⟨rfl, rfl, fun _ => rfl⟩
      | _ => cases hc'
  | unlocker h => cases hc'
  | monitor h => cases hc'

/-! ## Statements -/

/-- A failed call unlocks, or the unlocker does, which expires in the same statement. -/
theorem Call.toUnlock_cases {id : RequestId} (hc : c.monitors = false)
    (h : c.toUnlock = some id) :
    c.unlocking = some id ∨ (c.toExpire = some id ∧ c.prepared? = none) := by
  unfold Call.toUnlock at h
  split at h <;> cases h
  · exact Or.inl rfl
  · exact Or.inl rfl
  · exact Or.inr ⟨rfl, rfl⟩
  · cases hc

theorem Call.toUnlock_of_finalizing {prepared : PreparedTransaction}
    (h : c.finalizing = some prepared) : c.toUnlock = none := by
  unfold Call.finalizing at h
  split at h <;> cases h <;> rfl

theorem Call.sends_eq {prepared : PreparedTransaction} {p : RequestId × Transaction}
    (h : c.sends = some p) (hc : c.prepared? = some prepared) : p.1 = prepared.id := by
  unfold Call.sends at h
  split at h
  · cases h; cases hc; rfl
  · cases h

theorem Call.prepared_of_sends {p : RequestId × Transaction} (h : c.sends = some p) :
    c.prepared?.isSome = true := by
  unfold Call.sends at h
  split at h
  · rfl
  · cases h

/-- What a statement unlocks, no other call finalizes, and the node has rejected what another call
    sent for it. -/
theorem Guarded.free_of_unlocks (hc : Guarded s i c) (hi : s.calls[i]? = some c)
    (hu : Undisturbed s (.statement i ch)) (hcall : CallStep env ch s.db c x c') {id : RequestId}
    (hx : x.unlocks = some id) (hq : Guarded s j q) (hj : s.calls[j]? = some q) (hne : j ≠ i) :
    (∀ prepared, q.finalizing = some prepared → prepared.id ≠ id) ∧
      ∀ sub ∈ s.submissions, sub.call = j → sub.pendingTxId = id →
        sub.transaction ∈ s.network.rejected := by
  rcases Call.toUnlock_cases hc.calls (hcall.unlocks hx) with hunlocking | ⟨hexpire, -⟩
  · obtain ⟨-, hcompleted, hrejected⟩ := hc.unlocking id hunlocking
    exact ⟨fun prepared hp hid => hcompleted (hid ▸ hq.completed prepared hp),
      fun sub hsub _ hid => hrejected sub hsub hid⟩
  · obtain ⟨hothers, hrejected⟩ := hu.expires i rfl c hi id hexpire
    exact ⟨fun prepared hp => hothers q (mem_others hne hj) prepared hp,
      fun sub hsub hsubj hid => hrejected sub hsub (fun he => hne (hsubj ▸ he)) hid⟩

/-- The statuses of a pending transaction that are not an end, after a statement. -/
theorem Undisturbed.live_of_apply (hu : Undisturbed s (.statement i ch)) (hi : s.calls[i]? = some c)
    (hcall : CallStep env ch s.db c x c') {id : RequestId} {status : PendingTransactionStatus}
    (hrec : PendingExists s.db.pendingTransactions id)
    (hlive : status = .pending ∨ status = .completed)
    (h : HasStatus (x.apply s.db).pendingTransactions id status) :
    HasStatus s.db.pendingTransactions id .pending ∨
      HasStatus s.db.pendingTransactions id .completed := by
  rcases hasStatus_apply h with h | ⟨-, hnew⟩ | hsets
  · rcases hlive with rfl | rfl
    · exact Or.inl h
    · exact Or.inr h
  · exact absurd hrec hnew
  · rcases hcall.sets hsets with ⟨rfl, -⟩ | ⟨rfl, prepared, hcomplete, rfl⟩
    · rcases hlive with he | he <;> cases he
    · exact (hu.completes i rfl c hi prepared hcomplete).1

/-- A statement of another call. -/
theorem Guarded.other (hq : Guarded s j q) (hj : s.calls[j]? = some q) (hne : j ≠ i)
    (hc : Guarded s i c) (hi : s.calls[i]? = some c) (hu : Undisturbed s (.statement i ch))
    (hcall : CallStep env ch s.db c x c') (calls : List Call) :
    Guarded { s with db := x.apply s.db, calls } j q where
  calls := hq.calls
  recorded id hid := (hq.recorded id hid).apply x
  completed prepared hp := by
    have hbefore := hq.completed prepared hp
    obtain ⟨status, hafter⟩ := (hbefore.recorded.apply x).hasStatus
    rcases hasStatus_apply hafter with h | ⟨-, hnew⟩ | hsets
    · exact hbefore.unique h ▸ hafter
    · exact absurd hbefore.recorded hnew
    · rcases hcall.sets hsets with ⟨-, hexpire⟩ | ⟨rfl, -⟩
      · obtain ⟨hothers, -⟩ := hu.expires i rfl c hi prepared.id hexpire
        exact absurd rfl (hothers q (mem_others hne hj) prepared hp)
      · exact hafter
  locked prepared hp u hmem := (hq.locked prepared hp u hmem).apply x
    (fun hx => (hc.free_of_unlocks hi hu hcall hx hq hj hne).1 prepared hp rfl)
  sent := hq.sent
  kept sub hsub hsubj hrej prepared hp u hmem := by
    refine (hq.kept sub hsub hsubj hrej prepared hp u hmem).apply x (fun hx => hrej ?_)
    exact (hc.free_of_unlocks hi hu hcall hx hq hj hne).2 sub hsub hsubj
      (Call.sends_eq (hq.sent sub hsub hsubj) hp)
  releasing := hq.releasing
  unlocking id hid := by
    obtain ⟨hpending, hcompleted, hrejected⟩ := hq.unlocking id hid
    have hrec := hq.recorded id (Call.pendingTxId_of_unlocking hid)
    have hnot : ∀ status, status = .pending ∨ status = .completed →
        ¬HasStatus (x.apply s.db).pendingTransactions id status := by
      intro status hlive h
      rcases hu.live_of_apply hi hcall hrec hlive h with h | h
      · exact hpending h
      · exact hcompleted h
    exact ⟨hnot _ (Or.inl rfl), hnot _ (Or.inr rfl), hrejected⟩

/-- The call whose statement it is. -/
theorem Guarded.own (hc : Guarded s i c) (hi : s.calls[i]? = some c)
    (hu : Undisturbed s (.statement i ch)) (hcall : CallStep env ch s.db c x c')
    (calls : List Call) : Guarded { s with db := x.apply s.db, calls } i c' where
  calls := hcall.monitors.trans hc.calls
  recorded := hcall.recorded hc.recorded
  completed prepared hp := by
    rcases hcall.finalizing hp with ⟨hp, hsets⟩ | ⟨hcomplete, rfl⟩
    · refine (hc.completed prepared hp).apply x (fun status h => ?_)
      rw [hsets] at h
      cases h
    · have hlive := (hu.completes i rfl c hi prepared hcomplete).1
      have hrec : PendingExists s.db.pendingTransactions prepared.id :=
        hlive.elim HasStatus.recorded HasStatus.recorded
      exact (hasStatus_update prepared.id prepared.id .completed .completed).mpr
        (by rw [if_pos rfl]; exact ⟨rfl, hrec⟩)
  locked prepared hp u hmem := by
    rcases hcall.finalizing hp with ⟨hp, hsets⟩ | ⟨hcomplete, rfl⟩
    · refine (hc.locked prepared hp u hmem).apply x (fun hx => ?_)
      have hunlock := hcall.unlocks hx
      rw [Call.toUnlock_of_finalizing hp] at hunlock
      cases hunlock
    · exact (hu.completes i rfl c hi prepared hcomplete).2 u hmem
  sent sub hsub hsubi := hcall.sends.trans (hc.sent sub hsub hsubi)
  kept sub hsub hsubi hrej prepared hp u hmem := by
    rw [hcall.prepared?] at hp
    refine (hc.kept sub hsub hsubi hrej prepared hp u hmem).apply x (fun hx => hrej ?_)
    rcases Call.toUnlock_cases hc.calls (hcall.unlocks hx) with hunlocking | ⟨-, hnone⟩
    · exact (hc.unlocking _ hunlocking).2.2 sub hsub (Call.sends_eq (hc.sent sub hsub hsubi) hp)
    · rw [hp] at hnone
      cases hnone
  releasing hr := hc.releasing (hcall.releasing hr)
  unlocking id hid := by
    obtain ⟨hexpire, rfl, hreleasing⟩ := hcall.unlocking hid
    have hexpired : ∀ status, status ≠ .expired →
        ¬HasStatus (s.db.updatePendingTransactionStatus id .expired).pendingTransactions id
          status := by
      intro status hne h
      rw [hasStatus_update, if_pos rfl] at h
      exact hne h.1.symm
    refine ⟨hexpired .pending (by decide), hexpired .completed (by decide), fun sub hsub hsubid => ?_⟩
    by_cases hsubi : sub.call = i
    · have hsome := Call.prepared_of_sends (hc.sent sub hsub hsubi)
      exact hc.releasing (hreleasing hsome) sub hsub hsubi
    · exact (hu.expires i rfl c hi id hexpire).2 sub hsub hsubi hsubid

/-! ## Messages, rollbacks and new calls -/

/-- A step that is not about the database or about new submissions: the call stays, or moves where
    it may release only what the node has rejected. -/
theorem Guarded.move (hc : Guarded s j c) (hdb : s'.db = s.db)
    (hsubs : s'.submissions = s.submissions)
    (hrej : ∀ tx ∈ s.network.rejected, tx ∈ s'.network.rejected)
    (hmonitors : c'.monitors = c.monitors) (hid : c'.pendingTxId = c.pendingTxId)
    (hsends : c'.sends = c.sends) (hprepared : c'.prepared? = c.prepared?)
    (hfinalizing : ∀ prepared, c'.finalizing = some prepared → c.finalizing = some prepared)
    (hunlocking : ∀ id, c'.unlocking = some id → c.unlocking = some id)
    (hreleasing : c'.releasing = true → ∀ sub ∈ s.submissions, sub.call = j →
      sub.transaction ∈ s.network.rejected) : Guarded s' j c' where
  calls := hmonitors.trans hc.calls
  recorded id h := by
    rw [hdb]
    exact hc.recorded id (hid ▸ h)
  completed prepared h := by
    rw [hdb]
    exact hc.completed prepared (hfinalizing prepared h)
  locked prepared h := by
    rw [hdb]
    exact hc.locked prepared (hfinalizing prepared h)
  sent sub hsub hsubj := by
    rw [hsubs] at hsub
    exact hsends.trans (hc.sent sub hsub hsubj)
  kept sub hsub hsubj hnot prepared h := by
    rw [hsubs] at hsub
    rw [hdb]
    exact hc.kept sub hsub hsubj (fun hin => hnot (hrej _ hin)) prepared (hprepared ▸ h)
  releasing h sub hsub hsubj := by
    rw [hsubs] at hsub
    exact hrej _ (hreleasing h sub hsub hsubj)
  unlocking id h := by
    obtain ⟨hpending, hcompleted, hrejected⟩ := hc.unlocking id (hunlocking id h)
    rw [hdb, hsubs]
    exact ⟨hpending, hcompleted, fun sub hsub hsubid => hrej _ (hrejected sub hsub hsubid)⟩

/-- The call stays where it is. -/
theorem Guarded.stay (hc : Guarded s j c) (hdb : s'.db = s.db)
    (hsubs : s'.submissions = s.submissions)
    (hrej : ∀ tx ∈ s.network.rejected, tx ∈ s'.network.rejected) : Guarded s' j c :=
  hc.move hdb hsubs hrej rfl rfl rfl rfl (fun _ h => h) (fun _ h => h) hc.releasing

/-- A finalize call that waits, once `submit_transaction` has returned. -/
theorem Guarded.receive (hc : Guarded s i c) {messageId : Nat}
    (hawait : c.awaiting = some messageId) {result : Except String TxSubmissionResponse}
    (hdb : s'.db = s.db) (hsubs : s'.submissions = s.submissions)
    (hrej : s'.network.rejected = s.network.rejected)
    (hresult : ∀ p, c.sends = some p → (∃ e, result = .error e) ∨ rejects result = true →
      p.2 ∈ s.network.rejected) : Guarded s' i (c.received result) := by
  have hcalls := hc.calls
  unfold Call.awaiting at hawait
  split at hawait <;> cases hawait
  · next prepared signed retries =>
      have hown : ((∃ e, result = .error e) ∨ rejects result = true) →
          ∀ sub ∈ s.submissions, sub.call = i → sub.transaction ∈ s.network.rejected := by
        intro hfail sub hsub hsubi
        exact hresult (sub.pendingTxId, sub.transaction) (hc.sent sub hsub hsubi) hfail
      have hrej' : ∀ tx ∈ s.network.rejected, tx ∈ s'.network.rejected := fun tx h => hrej ▸ h
      have hmove : ∀ st : FinalizeState,
          (Call.finalize prepared signed st).finalizing = none →
          (Call.finalize prepared signed st).unlocking = none →
          ((Call.finalize prepared signed st).releasing = true →
            (∃ e, result = .error e) ∨ rejects result = true) →
          Guarded s' i (.finalize prepared signed st) := by
        intro st hfinalizing hunlocking hreleasing
        refine hc.move hdb hsubs hrej' rfl rfl rfl rfl (fun p hp => ?_) (fun id hid => ?_)
          (fun h => hown (hreleasing h))
        · rw [hfinalizing] at hp
          cases hp
        · rw [hunlocking] at hid
          cases hid
      show Guarded s' i (.finalize prepared signed (.ofResponse result))
      cases result with
      | error e => exact hmove _ rfl rfl (fun _ => Or.inl ⟨e, rfl⟩)
      | ok response =>
          unfold FinalizeState.ofResponse
          dsimp only
          split
          · exact hmove _ rfl rfl (fun h => by cases h)
          · next haccepted =>
              split
              · next hreason =>
                  exact hmove _ rfl rfl (fun _ => Or.inr (by simp [rejects, haccepted, hreason]))
              · exact hmove _ rfl rfl (fun h => by cases h)
  · cases hcalls

theorem Guarded.retry (hc : Guarded s i c) (hretry : c.retry = some c') (hdb : s'.db = s.db)
    (hsubs : s'.submissions = s.submissions)
    (hrej : ∀ tx ∈ s.network.rejected, tx ∈ s'.network.rejected) : Guarded s' i c' := by
  have hcalls := hc.calls
  unfold Call.retry at hretry
  split at hretry <;> cases hretry
  · exact hc.move hdb hsubs hrej rfl rfl rfl rfl (fun _ h => h) (fun _ h => by cases h)
      (fun h => by cases h)
  · cases hcalls

/-- The call that submits. -/
theorem Guarded.send (hc : Guarded s i c) {id : RequestId} {tx : Transaction}
    (hsend : c.toSend = some (id, tx)) (messageId : Nat) (hdb : s'.db = s.db)
    (hsubs : s'.submissions = s.submissions ++ [⟨i, id, tx⟩]) :
    Guarded s' i (c.sent messageId) := by
  have hcalls := hc.calls
  unfold Call.toSend at hsend
  split at hsend <;> cases hsend
  · next prepared signed retries =>
      have hmem : ∀ sub ∈ s'.submissions, sub.call = i →
          (sub ∈ s.submissions ∧ sub.call = i) ∨ sub = ⟨i, prepared.id, signed.transaction⟩ := by
        intro sub hsub hsubi
        rw [hsubs] at hsub
        rcases List.mem_append.mp hsub with hsub | hsub
        · exact Or.inl ⟨hsub, hsubi⟩
        · exact Or.inr (List.mem_singleton.mp hsub)
      refine ⟨rfl, ?_, ?_, ?_, ?_, ?_, ?_, ?_⟩
      · rw [hdb]; exact hc.recorded
      · rw [hdb]; exact hc.completed
      · rw [hdb]; exact hc.locked
      · intro sub hsub hsubi
        rcases hmem sub hsub hsubi with ⟨hsub, hsubi⟩ | rfl
        · exact hc.sent sub hsub hsubi
        · rfl
      · intro sub _ _ _ p hp u hu
        rw [hdb]
        cases hp
        exact hc.locked prepared rfl u hu
      · intro h; cases h
      · intro id h; cases h
  · cases hcalls

theorem Guarded.sendOther (hq : Guarded s j q) (hne : j ≠ i) (hc : Guarded s i c) {id : RequestId}
    {tx : Transaction} (hsend : c.toSend = some (id, tx)) (hdb : s'.db = s.db)
    (hsubs : s'.submissions = s.submissions ++ [⟨i, id, tx⟩])
    (hrej : s'.network.rejected = s.network.rejected) : Guarded s' j q := by
  have hmem : ∀ sub ∈ s'.submissions, sub.call = j → sub ∈ s.submissions := by
    intro sub hsub hsubj
    rw [hsubs] at hsub
    rcases List.mem_append.mp hsub with hsub | hsub
    · exact hsub
    · rw [List.mem_singleton.mp hsub] at hsubj
      exact absurd hsubj.symm hne
  refine ⟨hq.calls, ?_, ?_, ?_, fun sub hsub hsubj => hq.sent sub (hmem sub hsub hsubj) hsubj, ?_,
    ?_, ?_⟩
  · rw [hdb]; exact hq.recorded
  · rw [hdb]; exact hq.completed
  · rw [hdb]; exact hq.locked
  · rw [hdb, hrej]
    exact fun sub hsub hsubj => hq.kept sub (hmem sub hsub hsubj) hsubj
  · rw [hrej]
    exact fun h sub hsub hsubj => hq.releasing h sub (hmem sub hsub hsubj) hsubj
  · intro id' hid'
    obtain ⟨hpending, hcompleted, hrejected⟩ := hq.unlocking id' hid'
    rw [hdb, hrej, hsubs]
    refine ⟨hpending, hcompleted, fun sub hsub hsubid => ?_⟩
    rcases List.mem_append.mp hsub with hsub | hsub
    · exact hrejected sub hsub hsubid
    · -- what is sent is `Completed`, what is unlocked is not
      rw [List.mem_singleton.mp hsub] at hsubid
      subst hsubid
      have hcalls := hc.calls
      unfold Call.toSend at hsend
      split at hsend <;> cases hsend
      · exact absurd (hc.completed _ rfl) hcompleted
      · cases hcalls

/-- A rollback, which cancels nothing that is being finalized. -/
theorem Guarded.rollback (hq : Guarded s j q) {accountId : AccountId} {height : Nat}
    {now : Timestamp} {db : Db}
    (hoff : ∀ id ∈ cancelledPendingTxIds (s.db.getActiveOutputsFromHeight accountId height),
      ∀ prepared, q.finalizing = some prepared → prepared.id ≠ id)
    (houtputs : db.outputs = (s.db.setOutputsDeleted accountId height now).outputs)
    (hpending : db.pendingTransactions = (s.db.cancelPendingTransactionsByIds
      (cancelledPendingTxIds (s.db.getActiveOutputsFromHeight accountId height))
      .cancelled).pendingTransactions) : Guarded { s with db } j q where
  calls := hq.calls
  recorded id hid := by
    show PendingExists db.pendingTransactions id
    rw [hpending]
    exact (hq.recorded id hid).cancel _ _
  completed prepared hp := by
    show HasStatus db.pendingTransactions prepared.id .completed
    rw [hpending, hasStatus_cancel, if_neg (fun hid => hoff _ hid prepared hp rfl)]
    exact hq.completed prepared hp
  locked prepared hp u hu := by
    show LockedBy db.outputs prepared.id u.id
    rw [houtputs]
    exact (hq.locked prepared hp u hu).setOutputsDeleted accountId height now
  sent := hq.sent
  kept sub hsub hsubj hnot prepared hp u hu := by
    show LockedBy db.outputs prepared.id u.id
    rw [houtputs]
    exact (hq.kept sub hsub hsubj hnot prepared hp u hu).setOutputsDeleted accountId height now
  releasing := hq.releasing
  unlocking id hid := by
    obtain ⟨hnotPending, hnotCompleted, hrejected⟩ := hq.unlocking id hid
    have hnot : ∀ status, status ≠ .cancelled →
        ¬HasStatus s.db.pendingTransactions id status →
        ¬HasStatus db.pendingTransactions id status := by
      intro status hne hbefore h
      rw [hpending, hasStatus_cancel] at h
      split at h
      · exact hne h.1.symm
      · exact hbefore h
    exact ⟨hnot _ (by decide) hnotPending, hnot _ (by decide) hnotCompleted, hrejected⟩

/-! ## Runs -/

/-- A rejection that arrives is the node's about the transaction that the call sent. -/
theorem MessagesMatch.rejected_of_receive (h : MessagesMatch s) (hi : s.calls[i]? = some c)
    {messageId : Nat} (hawait : c.awaiting = some messageId)
    {result : Except String TxSubmissionResponse}
    (hresult : s.network.responses.lookup messageId = some result)
    (hrejects : rejects result = true) {p : RequestId × Transaction} (hp : c.sends = some p) :
    p.2 ∈ s.network.rejected := by
  obtain ⟨tx, hawaited⟩ := Call.awaited_of_awaiting hawait
  obtain ⟨l₁, l₂, hl, -⟩ := List.lookup_eq_some_iff.mp hresult
  have htx : p.2 = tx := by
    unfold Call.awaited at hawaited
    split at hawaited <;> cases hawaited <;> cases hp
    rfl
  rw [htx]
  exact (h.awaited i c hi (messageId, tx) hawaited).rejected (messageId, result) (by simp [hl]) rfl
    hrejects

/-- A new call has sent nothing. -/
theorem AllGuarded.begin (h : AllGuarded s) {c : Call} (hawaited : c.awaited = none)
    (hmonitors : c.monitors = false)
    (hrecorded : ∀ id, c.pendingTxId = some id → PendingExists s.db.pendingTransactions id)
    (hfinalizing : c.finalizing = none) (hunlocking : c.unlocking = none) :
    AllGuarded (s.begin c) := by
  have hnone : ∀ sub ∈ s.submissions, sub.call ≠ s.calls.length :=
    fun sub hsub => Nat.ne_of_lt (h.callers sub hsub)
  refine ⟨h.messages.begin hawaited, h.guarded.append ⟨hmonitors, hrecorded, ?_, ?_, ?_, ?_, ?_, ?_⟩
    (fun j q _ hq => hq.stay rfl rfl (fun _ h => h)), fun sub hsub => ?_⟩
  · intro prepared hp
    rw [hfinalizing] at hp
    cases hp
  · intro prepared hp
    rw [hfinalizing] at hp
    cases hp
  · exact fun sub hsub hsubj => absurd hsubj (hnone sub hsub)
  · exact fun sub hsub hsubj => absurd hsubj (hnone sub hsub)
  · exact fun _ sub hsub hsubj => absurd hsubj (hnone sub hsub)
  · intro id hid
    rw [hunlocking] at hid
    cases hid
  · show sub.call < (s.calls ++ [c]).length
    rw [List.length_append]
    exact Nat.lt_add_right _ (h.callers sub hsub)

theorem allGuarded_step (h : AllGuarded s) (ha : a.finalizes = true) (hu : Undisturbed s a)
    (hstep : s.step env a = some s') : AllGuarded s' := by
  have hmessages := messagesMatch_step h.messages hstep
  cases a with
  | lock req => cases hstep; exact h.begin rfl rfl (fun id hid => by cases hid) rfl rfl
  | startNewTransaction req =>
      cases hstep
      exact h.begin rfl rfl (fun id hid => by cases hid) rfl rfl
  | finalize startCall kernelExcess sentOutputHash displayed =>
      obtain ⟨req, prepared, hstart, rfl⟩ := step_finalize hstep
      exact h.begin rfl rfl (h.guarded startCall _ hstart).recorded rfl rfl
  | unlockExpiredTransactions =>
      cases hstep
      exact h.begin rfl rfl (fun id hid => by cases hid) rfl rfl
  | statement i ch =>
      obtain ⟨c, x, c', hi, -, hcall, rfl⟩ := step_statement hstep
      refine ⟨hmessages, h.guarded.set ((h.guarded i c hi).own hi hu hcall _) (fun j q hne hj hq =>
        hq.other hj hne (h.guarded i c hi) hi hu hcall _), fun sub hsub => ?_⟩
      show sub.call < (s.calls.set i c').length
      rw [List.length_set]
      exact h.callers sub hsub
  | send i =>
      obtain ⟨c, id, tx, hi, hsend, rfl⟩ := step_send hstep
      have hc := h.guarded i c hi
      refine ⟨hmessages, h.guarded.set (hc.send hsend _ rfl rfl) (fun j q hne _ hq =>
        hq.sendOther hne hc hsend rfl rfl rfl), fun sub hsub => ?_⟩
      show sub.call < (s.calls.set i _).length
      rw [List.length_set]
      rcases List.mem_append.mp hsub with hsub | hsub
      · exact h.callers sub hsub
      · rw [List.mem_singleton.mp hsub]
        exact (List.getElem?_eq_some_iff.mp hi).1
  | receive i =>
      obtain ⟨c, messageId, result, hi, hawait, hresult, rfl⟩ := step_receive hstep
      refine ⟨hmessages, h.guarded.set ((h.guarded i c hi).receive hawait rfl rfl rfl ?_)
        (fun j q _ _ hq => hq.stay rfl rfl (fun _ h => h)), fun sub hsub => ?_⟩
      · intro p hp hfail
        rcases hfail with ⟨e, rfl⟩ | hrejects
        · refine hu.fails i ?_ c hi p hp
          simp [failsSubmission, hi, hawait, hresult]
        · exact h.messages.rejected_of_receive hi hawait hresult hrejects hp
      · show sub.call < (s.calls.set i _).length
        rw [List.length_set]
        exact h.callers sub hsub
  | transportError i retry message =>
      obtain ⟨c, c', hi, rfl, hcase⟩ := step_transportError hstep
      refine ⟨hmessages, h.guarded.set ?_ (fun j q _ _ hq => hq.stay rfl rfl (fun _ h => h)),
        fun sub hsub => ?_⟩
      · rcases hcase with ⟨-, hretry⟩ | ⟨rfl, ⟨messageId, hawait⟩, rfl⟩
        · exact (h.guarded i c hi).retry hretry rfl rfl (fun _ h => h)
        · exact (h.guarded i c hi).receive hawait rfl rfl rfl
            (fun p hp _ => hu.fails i rfl c hi p hp)
      · show sub.call < (s.calls.set i _).length
        rw [List.length_set]
        exact h.callers sub hsub
  | answer messageId result =>
      obtain ⟨tx, htx, rfl⟩ := step_answer hstep
      refine ⟨hmessages, h.guarded.mono (fun j q _ hq => hq.stay rfl rfl (fun t ht => ?_)),
        h.callers⟩
      dsimp only
      split
      · exact List.mem_append_left _ ht
      · exact ht
  | loseRequest messageId =>
      cases hstep
      exact ⟨hmessages, h.guarded.mono (fun j q _ hq => hq.stay rfl rfl (fun _ h => h)), h.callers⟩
  | loseResponse messageId =>
      cases hstep
      exact ⟨hmessages, h.guarded.mono (fun j q _ hq => hq.stay rfl rfl (fun _ h => h)), h.callers⟩
  | rollbackFromHeight accountId height webhookConfig now =>
      obtain ⟨db, rfl, houtputs, hpending, -⟩ := step_rollbackFromHeight hstep
      refine ⟨hmessages, h.guarded.mono (fun j q hj hq => hq.rollback (fun id hid prepared hp => ?_)
        houtputs hpending), h.callers⟩
      exact hu.cancels id hid q (List.mem_of_getElem? hj) prepared hp
  | monitor m => cases ha
  | processBlock bp block accountId now => cases ha

theorem allGuarded_init (hcalls : s.calls = []) (hnetwork : s.network = {})
    (hsubs : s.submissions = []) : AllGuarded s := by
  refine ⟨⟨?_, ?_, ?_⟩, ?_, ?_⟩
  · rw [hnetwork]; intro m hm; cases hm
  · rw [hnetwork]; intro m hm; cases hm
  · rw [hcalls]; exact each_nil
  · rw [hcalls]; exact each_nil
  · rw [hsubs]; intro sub hsub; cases hsub

/-- A pending transaction that has been expired or cancelled stays so. -/
theorem ended_step {id : RequestId} (hid : Ended s.db.pendingTransactions id)
    (ha : a.finalizes = true) (hu : Undisturbed s a) (hstep : s.step env a = some s') :
    Ended s'.db.pendingTransactions id := by
  have hnot : ∀ status, status = .pending ∨ status = .completed →
      ¬HasStatus s.db.pendingTransactions id status := by
    intro status hlive h
    rcases hid with hid | hid <;> rcases hlive with rfl | rfl <;> cases hid.unique h
  have hrec : PendingExists s.db.pendingTransactions id :=
    hid.elim HasStatus.recorded HasStatus.recorded
  rcases step_db hstep with hdb | ⟨i, ch, rfl⟩ | ⟨bp, block, accountId, now, rfl⟩ |
    ⟨accountId, height, webhookConfig, now, rfl⟩
  · rw [hdb]
    exact hid
  · obtain ⟨c, x, c', hi, -, hcall, rfl⟩ := step_statement hstep
    have hlive : ∀ status, status = .pending ∨ status = .completed →
        ¬HasStatus (x.apply s.db).pendingTransactions id status := by
      intro status hlive h
      rcases hu.live_of_apply hi hcall hrec hlive h with h | h
      · exact hnot _ (Or.inl rfl) h
      · exact hnot _ (Or.inr rfl) h
    obtain ⟨status, hafter⟩ := (hrec.apply x).hasStatus
    cases status with
    | pending => exact absurd hafter (hlive _ (Or.inl rfl))
    | completed => exact absurd hafter (hlive _ (Or.inr rfl))
    | expired => exact Or.inl hafter
    | cancelled => exact Or.inr hafter
  · cases ha
  · obtain ⟨db, rfl, -, hpending, -⟩ := step_rollbackFromHeight hstep
    show Ended db.pendingTransactions id
    rw [hpending]
    unfold Ended
    rw [hasStatus_cancel, hasStatus_cancel]
    split
    · exact Or.inr ⟨rfl, hrec⟩
    · exact hid

theorem keepsReserved_of_allGuarded (h : AllGuarded s) : KeepsReserved s := by
  intro sub hsub hrej c hc prepared hp u hu o ho hid hstatus
  obtain ⟨o', ho', hid', hlocked, -⟩ := (h.guarded sub.call c hc).kept sub hsub rfl hrej prepared hp u hu
  obtain rfl : o' = o := s.db.outputs.eq_of_key_eq ho' ho (hid'.trans hid.symm)
  rw [hstatus] at hlocked
  cases hlocked

/-- In every run of start, finalize, unlocker, lock and rollback calls from a state without calls and
    messages, if no step falls into a gap then whatever is submitted has never been expired or
    cancelled and has its locks, and nothing submitted is released before the node rejects it. -/
theorem reservation_guards_broadcast (env : TransactionEnv) (s₀ : WalletSystem)
    (as : List SystemAction) (hcalls : s₀.calls = []) (hnetwork : s₀.network = {})
    (hsubs : s₀.submissions = []) (has : ∀ a ∈ as, a.finalizes = true)
    (hu : Transition.Along (WalletSystem.step env) Undisturbed s₀ as) :
    SubmitsReserved env s₀ as ∧ Transition.Always (WalletSystem.step env) KeepsReserved s₀ as := by
  have hinit := allGuarded_init hcalls hnetwork hsubs
  have hcond := hu.and (Transition.along_of_forall _ has)
  have hstep : ∀ s a s', AllGuarded s → Undisturbed s a ∧ a.finalizes = true →
      s.step env a = some s' → AllGuarded s' :=
    fun _ _ _ h hg hs => allGuarded_step h hg.2 hg.1 hs
  constructor
  · intro bs i cs s prepared signed retries has hrun hi
    subst has
    have hprefix := ((Transition.along_append hrun).mp hcond).1
    have hguarded := (Transition.inv_of_run hstep hinit hprefix hrun).guarded i _ hi
    refine ⟨?_, hguarded.locked prepared rfl⟩
    refine Transition.always_not_of_final
      (P := fun t => Ended t.db.pendingTransactions prepared.id)
      (fun _ _ _ hid hg hs => ended_step hid hg.2 hg.1 hs) hprefix hrun ?_
    have hcompleted := hguarded.completed prepared rfl
    rintro (h | h) <;> cases hcompleted.unique h
  · exact Transition.always_of_along hstep (fun _ h => keepsReserved_of_allGuarded h) hinit hcond

/-! ## A broadcast after the expiry -/

/-- A payment of 1000 by account 1, with its outputs locked for 60 seconds. -/
def startRequest : StartRequest where
  accountId := 1
  confirmationWindow := 0
  idempotencyKey := "payment"
  recipient := ⟨77, 1000, none⟩
  secondsToLockUtxo := 60

/-- Call 0 prepares the payment: the checks, the selection, one output to lock, the build. -/
def prepareStatements : List SystemAction :=
  .startNewTransaction startRequest :: List.replicate 9 (.statement 0 { uuid := 11, txId := 21 })

/-- Call `i` finalizes it as far as the request. -/
def finalizeStatements (i : Nat) (now : Timestamp) : List SystemAction :=
  .finalize 0 900 none (.error "not displayed") :: List.replicate 4 (.statement i { now })

/-- The payment is finalized in time, and the node accepts it. -/
def finalizedInTime : List SystemAction :=
  prepareStatements ++ finalizeStatements 1 10 ++
    [.send 1, .answer 0 (.ok ⟨true, .other ""⟩), .receive 1, .statement 1 { now := 10 }]

/-- The unlocker expires the payment, and then it is finalized. -/
def finalizedAfterExpiry : List SystemAction :=
  prepareStatements ++ .unlockExpiredTransactions ::
    List.replicate 2 (.statement 1 { now := 100 }) ++ finalizeStatements 2 100

/-- Whether call 2 is about to submit without a lock on its inputs. -/
def submitsUnlocked (s : WalletSystem) : Bool :=
  match (s.calls[2]? : Option Call) with
  | some (.finalize prepared _ (.submit _)) =>
    decide (¬∀ u ∈ prepared.inputs, LockedBy s.db.outputs prepared.id u.id)
  | _ => false

/-- It is submitted without a lock, and its input is `UNSPENT` while the node has it. -/
theorem finalizedAfterExpiry_unreserved :
    (∀ a ∈ finalizedAfterExpiry ++ [.send 2], a.finalizes = true) ∧
      ¬SubmitsReserved plainTransactionEnv { db := fundedDb } (finalizedAfterExpiry ++ [.send 2]) ∧
      ¬Transition.Always (WalletSystem.step plainTransactionEnv) KeepsReserved { db := fundedDb }
        (finalizedAfterExpiry ++ [.send 2]) := by
  refine ⟨by decide, fun h => ?_, by decide +kernel⟩
  obtain ⟨s, hrun, hs⟩ := Transition.exists_run_of_any
    (f := WalletSystem.step plainTransactionEnv) (s := { db := fundedDb })
    (l := finalizedAfterExpiry) (q := submitsUnlocked) (by decide +kernel)
  unfold submitsUnlocked at hs
  split at hs
  · next prepared signed retries hi =>
      exact of_decide_eq_true hs
        (h finalizedAfterExpiry 2 [] s prepared signed retries rfl hrun hi).2
  · cases hs

theorem finalizedInTime_reserved :
    SubmitsReserved plainTransactionEnv { db := fundedDb } finalizedInTime ∧
      Transition.Always (WalletSystem.step plainTransactionEnv) KeepsReserved { db := fundedDb }
        finalizedInTime :=
  reservation_guards_broadcast plainTransactionEnv { db := fundedDb } finalizedInTime rfl rfl rfl
    (by decide) (by decide +kernel)

end MinotariWallet
