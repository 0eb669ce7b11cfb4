import MinotariWallet.Transactions.Steps

set_option autoImplicit false

/-! # Which outputs concurrent requests are handed

Calls of `FundLocker::lock` and `start_new_transaction` on one database, in any interleaving of their
statements. Selection reads what is unspent, and the outputs are locked later by an `UPDATE` whose
row count nobody looks at. -/

namespace MinotariWallet

open Sql Processes WalletSystem

/-- The outputs that a call has returned, with the pending transaction they are locked for. -/
def Call.returned : Call → Option (RequestId × List DbWalletOutput)
  | .lock _ (.ok id utxos _) => some (id, utxos)
  | .start _ (.ok prepared) => some (prepared.id, prepared.inputs)
  | _ => none

/-- The outputs that a call on its way has locked or read, with the pending transaction. -/
def Call.holding : Call → Option (RequestId × List DbWalletOutput)
  | .start _ (.locking id _ utxos todo) => some (id, utxos.filter (fun u => decide (u ∉ todo)))
  | .start _ (.build id _ inputs) => some (id, inputs)
  | _ => none

/-- The calls that reserve outputs. -/
def Call.reserves : Call → Bool
  | .lock _ _ => true
  | .start _ _ => true
  | _ => false

/-- The actions of `lock` and `start_new_transaction`. -/
def SystemAction.reserves : SystemAction → Bool
  | .lock _ => true
  | .startNewTransaction _ => true
  | .statement _ _ => true
  | _ => false

/-- When the step makes a call return, each output that it returns is locked for its pending
    transaction. -/
def HandsOutLocked (env : TransactionEnv) (s : WalletSystem) (a : SystemAction) : Prop :=
  ∀ i ∈ a.caller?, ∀ s' ∈ s.step env a, ∀ c ∈ s'.calls[i]?, ∀ r ∈ c.returned, ∀ u ∈ r.2,
    LockedBy s'.db.outputs r.1 u.id

/-- What calls have returned for pending transactions that are still `Pending`. -/
def WalletSystem.live (s : WalletSystem) : List (RequestId × List DbWalletOutput) :=
  (s.calls.filterMap Call.returned).filter
    (fun r => decide (HasStatus s.db.pendingTransactions r.1 .pending))

/-- The outputs returned for two live pending transactions are disjoint. -/
def LiveDisjoint (s : WalletSystem) : Prop :=
  ∀ r ∈ s.live, ∀ q ∈ s.live, r.1 ≠ q.1 → ∀ u ∈ r.2, ∀ v ∈ q.2, u.id ≠ v.id

/-- All outputs that carry the id of the pending transaction are `LOCKED`. -/
def Db.allLocked (db : Db) (id : RequestId) : Bool :=
  db.outputs.rows.all (fun o => o.lockedByRequestId != some id || o.status == .locked)

/-- The next statement of the call finds what the call counts on: an output to lock is `UNSPENT`, or
    locked for the same pending transaction already, and the outputs of a pending transaction that
    is resumed are `LOCKED`. -/
def Call.findsInTime (db : Db) : Call → Bool
  | .lock _ (.fetchExisting pending) => db.allLocked pending.id
  | .lock _ (.transaction selection) =>
    selection.utxos.all (fun u => db.outputs.exists? (fun o => o.id == u.id && o.status == .unspent))
  | .start _ (.locking id _ _ (utxo :: _)) => decide (Lockable db.outputs id utxo.id)
  | .start _ (.fetch id) => db.allLocked id
  | _ => true

/-- No statement comes too late: it finds what its call counts on, and it does not unlock outputs
    that another call holds. -/
def InTime (s : WalletSystem) (a : SystemAction) : Prop :=
  ∀ i ∈ a.caller?, ∀ c ∈ s.calls[i]?, c.findsInTime s.db = true ∧
    ∀ id ∈ c.toUnlock, ∀ d ∈ s.others i, ∀ h ∈ d.holding, h.1 = id → h.2 = []

instance (env : TransactionEnv) (s : WalletSystem) (a : SystemAction) :
    Decidable (HandsOutLocked env s a) := by
  unfold HandsOutLocked; infer_instance

instance (s : WalletSystem) : Decidable (LiveDisjoint s) := by
  unfold LiveDisjoint; infer_instance

instance (s : WalletSystem) (a : SystemAction) : Decidable (InTime s a) := by
  unfold InTime; infer_instance

/-- What is true of a call in every state: its outputs are locked while it is on its way, and after
    that while its pending transaction is `Pending`. -/
structure Reserved (db : Db) (c : Call) : Prop where
  reserves : c.reserves = true
  recorded : ∀ id, c.pendingTxId = some id → PendingExists db.pendingTransactions id
  holding : ∀ id utxos, c.holding = some (id, utxos) → ∀ u ∈ utxos, LockedBy db.outputs id u.id
  returned : ∀ id utxos, c.returned = some (id, utxos) →
    HasStatus db.pendingTransactions id .pending → ∀ u ∈ utxos, LockedBy db.outputs id u.id
  unlocking : ∀ id, c.toUnlock = some id → ¬HasStatus db.pendingTransactions id .pending

/-- All calls are so. -/
def AllReserved (s : WalletSystem) : Prop := Each (fun _ c => Reserved s.db c) s.calls

variable {env : TransactionEnv} {ch : Choice} {db : Db} {x : Statement} {c c' : Call}

/-- Only a new pending transaction is `Pending` after a step and was not before. -/
theorem CallStep.pending_of_apply (h : CallStep env ch db c x c') {id : RequestId}
    (hrec : PendingExists db.pendingTransactions id)
    (hp : HasStatus (x.apply db).pendingTransactions id .pending) :
    HasStatus db.pendingTransactions id .pending := by
  rcases hasStatus_apply hp with hp | ⟨-, hnew⟩ | hsets
  · exact hp
  · exact absurd hrec hnew
  · rcases h.sets hsets with ⟨he, -⟩ | ⟨he, -⟩ <;> cases he

theorem Call.pendingTxId_of_holding {id : RequestId} {utxos : List DbWalletOutput}
    (h : c.holding = some (id, utxos)) : c.pendingTxId = some id := by
  unfold Call.holding at h
  split at h <;> cases h <;> rfl

theorem Call.pendingTxId_of_returned {id : RequestId} {utxos : List DbWalletOutput}
    (h : c.returned = some (id, utxos)) : c.pendingTxId = some id := by
  unfold Call.returned at h
  split at h <;> cases h <;> rfl

theorem Call.pendingTxId_of_toUnlock {id : RequestId} (hc : c.reserves = true)
    (h : c.toUnlock = some id) : c.pendingTxId = some id := by
  unfold Call.toUnlock at h
  split at h <;> cases h
  · rfl
  · rfl
  · cases hc
  · cases hc

/-- A call that has no pending transaction yet. -/
theorem Reserved.of_none (hc : c.reserves = true) (h : c.pendingTxId = none) : Reserved db c where
  reserves := hc
  recorded id hid := by rw [h] at hid; cases hid
  holding id utxos hid := by rw [Call.pendingTxId_of_holding hid] at h; cases h
  returned id utxos hid := by rw [Call.pendingTxId_of_returned hid] at h; cases h
  unlocking id hid := by rw [Call.pendingTxId_of_toUnlock hc hid] at h; cases h

/-- A step of another call, when it does not unlock what this one holds. -/
theorem Reserved.other {q : Call} (h : Reserved db q) (hc : Reserved db c)
    (hstep : CallStep env ch db c x c')
    (hhold : ∀ id ∈ c.toUnlock, ∀ h ∈ q.holding, h.1 = id → h.2 = []) :
    Reserved (x.apply db) q where
  reserves := h.reserves
  recorded id hid := (h.recorded id hid).apply x
  holding id utxos hq u hu := by
    refine (h.holding id utxos hq u hu).apply x (fun hx => ?_)
    have hnil : utxos = [] := hhold id (hstep.unlocks hx) (id, utxos) hq rfl
    rw [hnil] at hu
    cases hu
  returned id utxos hq hp u hu := by
    have hp' := hstep.pending_of_apply (h.recorded id (Call.pendingTxId_of_returned hq)) hp
    exact (h.returned id utxos hq hp' u hu).apply x
      (fun hx => hc.unlocking id (hstep.unlocks hx) hp')
  unlocking id hid hp := h.unlocking id hid (hstep.pending_of_apply
    (h.recorded id (Call.pendingTxId_of_toUnlock h.reserves hid)) hp)

/-- What is read for a pending transaction is locked for it when all of it is `LOCKED`. -/
theorem fetchOutputsByLockRequestId_lockedBy {id : RequestId} (h : db.allLocked id = true) :
    ∀ u ∈ db.fetchOutputsByLockRequestId id, LockedBy db.outputs id u.id := by
  intro u hu
  obtain ⟨o, ho, rfl⟩ := List.mem_map.mp hu
  obtain ⟨hmem, hreq⟩ := Table.mem_select.mp ho
  have hreq' : o.lockedByRequestId = some id := by simpa using hreq
  have hlocked := List.all_eq_true.mp h o hmem
  exact ⟨o, hmem, rfl, by simpa [hreq'] using hlocked, hreq'⟩

theorem StartState.holding_afterLocking {req : StartRequest} {id id' : RequestId}
    {utxos held : List DbWalletOutput}
    (h : (Call.start req (.afterLocking id utxos)).holding = some (id', held)) :
    id' = id ∧ held = utxos := by
  unfold StartState.afterLocking at h
  split at h <;> cases h
  exact ⟨rfl, rfl⟩

theorem StartState.returned_afterLocking (req : StartRequest) (id : RequestId)
    (utxos : List DbWalletOutput) : (Call.start req (.afterLocking id utxos)).returned = none := by
  unfold StartState.afterLocking
  split <;> rfl

/-- The outputs of a call on its way or returned, after its own step. -/
theorem CallStep.ownLocks (h : CallStep env ch db c x c') (hc : Reserved db c)
    (hin : c.findsInTime db = true) :
    (∀ id utxos, c'.holding = some (id, utxos) → ∀ u ∈ utxos,
      LockedBy (x.apply db).outputs id u.id) ∧
    ∀ id utxos, c'.returned = some (id, utxos) → ∀ u ∈ utxos,
      LockedBy (x.apply db).outputs id u.id := by
  cases h with
  | lock h =>
      cases h with
      | fetched pending result =>
          refine ⟨fun id utxos hid => (by cases hid), fun id utxos hid u hu => ?_⟩
          cases hid
          exact fetchOutputsByLockRequestId_lockedBy hin u hu
      | created new result db' huuid hkey haccount hok =>
          refine ⟨fun id utxos hid => (by cases hid), fun id utxos hid u hu => ?_⟩
          cases hid
          rw [apply_createPendingAndLock hok]
          refine lockOutputs_lockedBy new.selection.utxos (fun v hv => Or.inl ?_) _ u hu
          rw [createPending_outputs hok]
          obtain ⟨o, ho, hov⟩ := Table.exists?_eq_true.mp (List.all_eq_true.mp hin v hv)
          exact ⟨o, ho, by simpa using hov⟩
      | _ => exact ⟨fun id utxos hid => (by cases hid), fun id utxos hid => (by cases hid)⟩
  | start h =>
      cases h with
      | created new db' huuid hkey haccount hok =>
          split
          · exact ⟨fun id utxos hid => (by cases hid), fun id utxos hid => (by cases hid)⟩
          · refine ⟨fun id utxos hid u hu => ?_, fun id utxos hid => (by cases hid)⟩
            -- nothing is locked yet
            cases hid
            simp at hu
      | allLocked req expiresAt utxos =>
          refine ⟨fun id held hid u hu => ?_, fun id held hid => ?_⟩
          · obtain ⟨rfl, rfl⟩ := StartState.holding_afterLocking hid
            exact hc.holding id (held.filter (fun u => decide (u ∉ []))) rfl u (by simpa using hu)
          · rw [StartState.returned_afterLocking] at hid
            cases hid
      | locked req expiresAt utxos rest utxo =>
          have hlocked : ∀ u ∈ utxos, u ∉ rest →
              LockedBy (db.lockOutput utxo.id req expiresAt).outputs req u.id := by
            intro u hu hrest
            by_cases heq : u = utxo
            · subst heq
              exact (of_decide_eq_true hin).lockedBy expiresAt
            · refine (hc.holding req _ rfl u ?_).lockOutput utxo.id req expiresAt
              simp [hu, heq, hrest]
          split
          · next hrest =>
              have hnil : rest = [] := by simpa using hrest
              subst hnil
              refine ⟨fun id held hid u hu => ?_, fun id held hid => ?_⟩
              · obtain ⟨rfl, rfl⟩ := StartState.holding_afterLocking hid
                exact hlocked u hu (by simp)
              · rw [StartState.returned_afterLocking] at hid
                cases hid
          · refine ⟨fun id held hid u hu => ?_, fun id held hid => (by cases hid)⟩
            cases hid
            obtain ⟨hu, hrest⟩ := List.mem_filter.mp hu
            exact hlocked u hu (of_decide_eq_true hrest)
      | fetched req =>
          refine ⟨fun id utxos hid u hu => ?_, fun id utxos hid => (by cases hid)⟩
          cases hid
          exact fetchOutputsByLockRequestId_lockedBy hin u hu
      | built req selectedUtxos inputs prepared hid hinputs =>
          refine ⟨fun id utxos hid' => (by cases hid'), fun id utxos hid' u hu => ?_⟩
          cases hid'
          exact hc.holding prepared.id prepared.inputs
            (by simp [Call.holding, hid, hinputs]) u hu
      | _ => exact ⟨fun id utxos hid => (by cases hid), fun id utxos hid => (by cases hid)⟩
  | finalize h => cases hc.reserves
  | unlocker h => cases hc.reserves
  | monitor h => cases hc.reserves

/-- A call after its own step. -/
theorem Reserved.own (hc : Reserved db c) (h : CallStep env ch db c x c')
    (hin : c.findsInTime db = true) : Reserved (x.apply db) c' where
  reserves := by
    have hr := hc.reserves
    cases h with
    | lock h => rfl
    | start h => rfl
    | finalize h => cases hr
    | unlocker h => cases hr
    | monitor h => cases hr
  recorded := h.recorded hc.recorded
  holding := (h.ownLocks hc hin).1
  returned id utxos hid _ := (h.ownLocks hc hin).2 id utxos hid
  unlocking id hid := by
    have hr := hc.reserves
    cases h with
    | lock h => cases hid
    | start h =>
        cases h with
        | created new db' huuid hkey haccount hok => split at hid <;> cases hid
        | allLocked req expiresAt utxos =>
            unfold StartState.afterLocking at hid
            split at hid <;> cases hid
        | locked req expiresAt utxos rest utxo =>
            unfold StartState.afterLocking at hid
            split at hid
            · split at hid <;> cases hid
            · cases hid
        | expired req e =>
            cases hid
            intro hp
            have hp' := (hasStatus_update id id .pending .expired).mp hp
            rw [if_pos rfl] at hp'
            cases hp'.1
        | _ => cases hid
    | finalize h => cases hr
    | unlocker h => cases hr
    | monitor h => cases hr

/-! ## Runs -/

theorem allReserved_step {s s' : WalletSystem} {a : SystemAction} (h : AllReserved s)
    (ha : a.reserves = true) (hin : InTime s a) (hstep : s.step env a = some s') :
    AllReserved s' := by
  cases a with
  | lock req =>
      cases hstep
      exact h.append (Reserved.of_none rfl rfl) (fun _ _ _ hq => hq)
  | startNewTransaction req =>
      cases hstep
      exact h.append (Reserved.of_none rfl rfl) (fun _ _ _ hq => hq)
  | statement i ch =>
      obtain ⟨c, x, c', hc, -, hcall, rfl⟩ := step_statement hstep
      obtain ⟨hfinds, hothers⟩ := hin i rfl c hc
      refine h.set ((h i c hc).own hcall hfinds) (fun j q hj hq hres => ?_)
      exact hres.other (h i c hc) hcall (fun id hid => hothers id hid q (mem_others hj hq))
  | _ => cases ha

theorem handsOutLocked_of_inTime {s : WalletSystem} {a : SystemAction} (h : AllReserved s)
    (hin : InTime s a) : HandsOutLocked env s a := by
  intro i hi s' hs' c' hc' r hr u hu
  cases a with
  | statement i ch =>
      cases hi
      obtain ⟨c, x, d, hc, -, hcall, rfl⟩ := step_statement hs'
      have hd : c' = d := by
        rcases getElem?_set_cases hc' with ⟨-, hd⟩ | ⟨hne, -⟩
        · exact hd
        · exact absurd rfl hne
      subst hd
      exact (hcall.ownLocks (h _ c hc) (hin _ rfl c hc).1).2 r.1 r.2 hr u hu
  | _ => cases hi

/-- In every state that the calls reserve outputs in, live requests have different outputs. -/
theorem liveDisjoint_of_allReserved {s : WalletSystem} (h : AllReserved s) : LiveDisjoint s := by
  have hlive : ∀ r ∈ s.live, ∀ u ∈ r.2, LockedBy s.db.outputs r.1 u.id := by
    intro r hr u hu
    obtain ⟨hr, hp⟩ := List.mem_filter.mp hr
    obtain ⟨c, hc, hret⟩ := List.mem_filterMap.mp hr
    obtain ⟨i, hi⟩ := List.mem_iff_getElem?.mp hc
    exact (h i c hi).returned r.1 r.2 hret (of_decide_eq_true hp) u hu
  intro r hr q hq hne u hu v hv he
  exact hne ((hlive r hr u hu).unique (he ▸ hlive q hq v hv))

/-- In every run of `lock` and `start_new_transaction` calls from a state without calls, if no
    statement comes too late then whatever a call returns is locked for its pending transaction, and
    live requests have different outputs in every state reached. -/
theorem handedOut_locked_and_disjoint (env : TransactionEnv) (s : WalletSystem)
    (as : List SystemAction) (hcalls : s.calls = []) (has : ∀ a ∈ as, a.reserves = true)
    (hin : Transition.Along (WalletSystem.step env) InTime s as) :
    Transition.Along (WalletSystem.step env) (HandsOutLocked env) s as ∧
      Transition.Always (WalletSystem.step env) LiveDisjoint s as := by
  have hs : AllReserved s := by
    unfold AllReserved
    rw [hcalls]
    exact each_nil
  have hcond := hin.and (Transition.along_of_forall _ has)
  constructor
  · exact Transition.along_of_along (I := AllReserved)
      (fun _ _ _ h hg hstep => allReserved_step h hg.2 hg.1 hstep)
      (fun _ _ _ h hg _ => handsOutLocked_of_inTime h hg.1) hs hcond
  · exact Transition.always_of_along (I := AllReserved)
      (fun _ _ _ h hg hstep => allReserved_step h hg.2 hg.1 hstep)
      (fun _ h => liveDisjoint_of_allReserved h) hs hcond

/-! ## Two requests that overlap -/

/-- Account 1 owns two unspent outputs, mined in block 1. -/
def fundedDb : Db :=
  (ledgerStep plainEnv Db.empty (.processBlock (BlockProcessor.withEventSender [(1, 7)] 3)
    ⟨1, 101, [(500, { outputHash := 500, value := 100000 }, 0),
      (501, { outputHash := 501, value := 90000 }, 0)], [], 1000⟩ 1 1000)).getD Db.empty

/-- A request of account 1 for 1000 under the key. -/
def lockRequest (key : IdempotencyKey) : LockFundsRequest where
  selector := ⟨1, 0, 1000, 1, 5, none⟩
  idempotencyKey := some key
  secondsToLockUtxos := 60

/-- The five reads of call `i` before it locks. -/
def selectStatements (i : Nat) : List SystemAction := List.replicate 5 (.statement i {})

/-- Two requests under different keys, one after the other. -/
def lockedInTurn : List SystemAction :=
  .lock (lockRequest "a") :: selectStatements 0 ++ .statement 0 { uuid := 11 } ::
    .lock (lockRequest "b") :: selectStatements 1 ++ [.statement 1 { uuid := 12 }]

/-- The same two requests, both of which select before either locks. -/
def lockedAtOnce : List SystemAction :=
  .lock (lockRequest "a") :: .lock (lockRequest "b") :: selectStatements 0 ++
    selectStatements 1 ++ [.statement 0 { uuid := 11 }, .statement 1 { uuid := 12 }]

/-- Then the second is handed an output that is locked for the first, and both are live. -/
theorem lockedAtOnce_overlaps :
    (∀ a ∈ lockedAtOnce, a.reserves = true) ∧
      ¬Transition.Along (WalletSystem.step plainTransactionEnv) (HandsOutLocked plainTransactionEnv)
        { db := fundedDb } lockedAtOnce ∧
      ¬Transition.Always (WalletSystem.step plainTransactionEnv) LiveDisjoint { db := fundedDb }
        lockedAtOnce := by
  decide +kernel

theorem lockedInTurn_disjoint :
    Transition.Along (WalletSystem.step plainTransactionEnv) (HandsOutLocked plainTransactionEnv)
        { db := fundedDb } lockedInTurn ∧
      Transition.Always (WalletSystem.step plainTransactionEnv) LiveDisjoint { db := fundedDb }
        lockedInTurn :=
  handedOut_locked_and_disjoint plainTransactionEnv { db := fundedDb } lockedInTurn rfl
    (by decide +kernel) (by decide +kernel)

end MinotariWallet
