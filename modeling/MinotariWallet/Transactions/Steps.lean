import MinotariWallet.Lib.Processes
import MinotariWallet.Transactions.Locks

set_option autoImplicit false

/-! # The steps of the calls

What a call can do in its next step, one constructor for each branch, with the database after it.
The results about runs follow from these relations and never unfold the calls. -/

namespace MinotariWallet

open Sql Exec

section Steps

variable (env : TransactionEnv) (ch : Choice) (db : Db)

inductive LockStep (req : LockFundsRequest) : LockState → Statement → LockState → Prop where
  | resume (pending : PendingTransaction) (key : IdempotencyKey)
      (h : db.findPendingTransactionByIdempotencyKey key req.selector.accountId = some pending) :
      LockStep req .find .read (.fetchExisting pending)
  | search : LockStep req .find .read (.selecting .tip)
  | fetched (pending : PendingTransaction) (result : LockFundsResult) :
      LockStep req (.fetchExisting pending) .read
        (.ok pending.id (db.fetchOutputsByLockRequestId pending.id) result)
  | selecting (s s' : Selecting) : LockStep req (.selecting s) .read (.selecting s')
  | selected (s : Selecting) (selection : UtxoSelection)
      (h : req.selector.step env db s = .ok (.inr selection)) :
      LockStep req (.selecting s) .read (.transaction selection)
  | notSelected (s : Selecting) (e : TransactionError) : LockStep req (.selecting s) .read (.failed e)
  | created (new : NewPendingTransaction) (result : LockFundsResult) (db' : Db)
      (hid : new.id = ch.uuid) (hkey : ∀ key, req.idempotencyKey = some key →
        new.idempotencyKey = key) (haccount : new.accountId = req.selector.accountId)
      (h : db.createPending new = .ok db') :
      LockStep req (.transaction new.selection) (.createPendingTransactionAndLock new)
        (.ok new.id new.selection.utxos result)
  | notCreated (new : NewPendingTransaction) (e : WalletDbError)
      (h : db.createPending new = .error e) :
      LockStep req (.transaction new.selection) (.createPendingTransactionAndLock new)
        (.failed (.db e))

inductive StartStep (req : StartRequest) : StartState → Statement → StartState → Prop where
  | notValid (e : TransactionError) : StartStep req .validate .read (.failed e)
  | validated (h : db.checkIfTransactionWasAlreadyCompletedByIdempotencyKey req.idempotencyKey
      req.accountId = false) : StartStep req .validate .read .find
  | resume (pending : PendingTransaction)
      (h : db.findPendingTransactionByIdempotencyKey req.idempotencyKey req.accountId =
        some pending) : StartStep req .find .read (.fetch pending.id)
  | search (expiresAt : Timestamp) : StartStep req .find .read (.selecting expiresAt .tip)
  | selecting (expiresAt : Timestamp) (s s' : Selecting)
      (h : req.selector.step env db s = .ok (.inl s')) :
      StartStep req (.selecting expiresAt s) .read (.selecting expiresAt s')
  | selected (expiresAt : Timestamp) (s : Selecting) (selection : UtxoSelection)
      (h : req.selector.step env db s = .ok (.inr selection)) :
      StartStep req (.selecting expiresAt s) .read (.create expiresAt selection)
  | notSelected (expiresAt : Timestamp) (s : Selecting) (e : TransactionError) :
      StartStep req (.selecting expiresAt s) .read (.failed e)
  | created (new : NewPendingTransaction) (db' : Db) (hid : new.id = ch.uuid)
      (hkey : new.idempotencyKey = req.idempotencyKey) (haccount : new.accountId = req.accountId)
      (h : db.createPending new = .ok db') :
      StartStep req (.create new.expiresAt new.selection) (.createPendingTransaction new)
        (if new.selection.utxos.isEmpty then .fetch new.id
        else .locking new.id new.expiresAt new.selection.utxos new.selection.utxos)
  | notCreated (new : NewPendingTransaction) (e : WalletDbError)
      (h : db.createPending new = .error e) :
      StartStep req (.create new.expiresAt new.selection) (.createPendingTransaction new)
        (.failed (.db e))
  | allLocked (id : RequestId) (expiresAt : Timestamp) (utxos : List DbWalletOutput) :
      StartStep req (.locking id expiresAt utxos []) .read (.afterLocking id utxos)
  | locked (id : RequestId) (expiresAt : Timestamp) (utxos rest : List DbWalletOutput)
      (utxo : DbWalletOutput) :
      StartStep req (.locking id expiresAt utxos (utxo :: rest)) (.lockOutput utxo.id id expiresAt)
        (if rest.isEmpty then .afterLocking id utxos else .locking id expiresAt utxos rest)
  | fetched (id : RequestId) :
      StartStep req (.fetch id) .read (.build id [] (db.fetchOutputsByLockRequestId id))
  | built (id : RequestId) (selectedUtxos inputs : List DbWalletOutput)
      (prepared : PreparedTransaction) (hid : prepared.id = id) (hinputs : prepared.inputs = inputs)
      (hkey : prepared.idempotencyKey = req.idempotencyKey)
      (haccount : prepared.accountId = req.accountId) (h : ch.external = .ok ()) :
      StartStep req (.build id selectedUtxos inputs) .read (.ok prepared)
  | notBuilt (id : RequestId) (selectedUtxos inputs : List DbWalletOutput) (e : TransactionError) :
      StartStep req (.build id selectedUtxos inputs) .read (.expire id e)
  | expired (id : RequestId) (e : TransactionError) :
      StartStep req (.expire id e) (.updatePendingTransactionStatus id .expired) (.unlock id e)
  | unlocked (id : RequestId) (e : TransactionError) :
      StartStep req (.unlock id e) (.unlockOutputsForRequest id) (.failed e)

inductive FinalizeStep (prepared : PreparedTransaction) (signed : SignedTransaction) :
    FinalizeState → Statement → FinalizeState → Prop where
  | notExpired : FinalizeStep prepared signed .checkExpired .read .setCompleted
  | isExpired : FinalizeStep prepared signed .checkExpired .read .setExpired
  | setExpired (e : TransactionError) :
      FinalizeStep prepared signed .setExpired
        (.updatePendingTransactionStatus prepared.id .expired) (.expire e)
  | setCompleted :
      FinalizeStep prepared signed .setCompleted
        (.updatePendingTransactionStatus prepared.id .completed) .createCompleted
  | notSerialized (e : TransactionError) :
      FinalizeStep prepared signed .setCompleted .read (.expire e)
  | created (new : NewCompletedTransaction) (db' : Db) (hid : new.txId = signed.txId)
      (hpending : new.pendingTxId = prepared.id)
      (htx : new.serializedTransaction = signed.transaction) (h : db.createCompleted new = .ok db') :
      FinalizeStep prepared signed .createCompleted (.createCompletedTransaction new) .connect
  | notCreated (new : NewCompletedTransaction) (e : WalletDbError)
      (h : db.createCompleted new = .error e) :
      FinalizeStep prepared signed .createCompleted (.createCompletedTransaction new)
        (.expire (.db e))
  | connected : FinalizeStep prepared signed .connect .read (.submit maxRetries)
  | notConnected (e : TransactionError) : FinalizeStep prepared signed .connect .read (.failed e)
  | rejected (reason : String) (e : TransactionError) :
      FinalizeStep prepared signed (.markRejected reason e)
        (.markCompletedTransactionAsRejected signed.txId reason ch.now) (.expire e)
  | broadcasted :
      FinalizeStep prepared signed .markBroadcasted
        (.markCompletedTransactionAsBroadcasted signed.txId 1 ch.now) .display
  | displayed (y : DbM Unit) (hy : Keeps Db.ledger y) :
      FinalizeStep prepared signed .display (.record y hy) .ok
  | notDisplayed (e : TransactionError) : FinalizeStep prepared signed .display .read (.failed e)
  | expired (e : TransactionError) :
      FinalizeStep prepared signed (.expire e)
        (.updatePendingTransactionStatus prepared.id .expired) (.unlock e)
  | unlocked (e : TransactionError) :
      FinalizeStep prepared signed (.unlock e) (.unlockOutputsForRequest prepared.id) (.failed e)

inductive UnlockerStep : UnlockerState → Statement → UnlockerState → Prop where
  | list (now : Timestamp) : UnlockerStep .list .read (.next (db.findExpiredPendingTransactions now))
  | expired (id : RequestId) (rest : List RequestId) :
      UnlockerStep (.next (id :: rest)) (.expireAndUnlock id) (.next rest)

inductive MonitorStep (m : TransactionMonitor) : MonitorState → Statement → MonitorState → Prop where
  | list : MonitorStep m .list .read
      (.rebroadcast (.fromTransactions (db.getPendingCompletedTransactions m.accountId)))
  | rebroadcastDone (todo : PendingTransactionsByStatus) (h : todo.completed = []) :
      MonitorStep m (.rebroadcast todo) .read (.checkMining todo)
  | exceeded (tx : CompletedTransactionRow) (rest : List CompletedTransactionRow) (reason : String)
      (todo : PendingTransactionsByStatus) (htodo : todo.completed = tx :: rest)
      (h : maxBroadcastAttempts ≤ tx.broadcastAttempts) :
      MonitorStep m (.rebroadcast todo) .read (.markRejected tx reason { todo with completed := rest })
  | rebroadcast (tx : CompletedTransactionRow) (rest : List CompletedTransactionRow)
      (todo : PendingTransactionsByStatus) (htodo : todo.completed = tx :: rest)
      (h : tx.broadcastAttempts < maxBroadcastAttempts) :
      MonitorStep m (.rebroadcast todo) .read (.submit tx maxRetries { todo with completed := rest })
  | rejected (tx : CompletedTransactionRow) (reason : String) (todo : PendingTransactionsByStatus) :
      MonitorStep m (.markRejected tx reason todo)
        (.markCompletedTransactionAsRejected tx.id reason ch.now) (.unlock tx reason todo)
  | unlocked (tx : CompletedTransactionRow) (reason : String) (todo : PendingTransactionsByStatus) :
      MonitorStep m (.unlock tx reason todo) (.unlockOutputsForRequest tx.pendingTxId)
        (.recordRejected tx reason todo)
  | broadcasted (tx : CompletedTransactionRow) (todo : PendingTransactionsByStatus) :
      MonitorStep m (.markBroadcasted tx todo)
        (.markCompletedTransactionAsBroadcasted tx.id (tx.broadcastAttempts + 1) ch.now)
        (.recordBroadcast tx todo)
  | notMined (tx : CompletedTransactionRow) (rest : List CompletedTransactionRow)
      (todo : PendingTransactionsByStatus) (htodo : todo.broadcast = tx :: rest) :
      MonitorStep m (.checkMining todo) .read (.checkMining { todo with broadcast := rest })
  | mined (tx : CompletedTransactionRow) (rest : List CompletedTransactionRow) (blockHeight : Nat)
      (blockHash : FixedHash) (todo : PendingTransactionsByStatus)
      (htodo : todo.broadcast = tx :: rest) :
      MonitorStep m (.checkMining todo) .read
        (.markMined tx blockHeight blockHash { todo with broadcast := rest })
  | miningDone (todo : PendingTransactionsByStatus) :
      MonitorStep m (.checkMining todo) .read (.checkConfirmation todo)
  | markedMined (tx : CompletedTransactionRow) (blockHeight : Nat) (blockHash : FixedHash)
      (todo : PendingTransactionsByStatus) :
      MonitorStep m (.markMined tx blockHeight blockHash todo)
        (.markCompletedTransactionAsMinedUnconfirmed tx.id (asI64 blockHeight) blockHash ch.now)
        (.recordMined tx blockHeight todo)
  | notConfirmed (tx : CompletedTransactionRow) (rest : List CompletedTransactionRow)
      (todo : PendingTransactionsByStatus) (htodo : todo.minedUnconfirmed = tx :: rest) :
      MonitorStep m (.checkConfirmation todo) .read
        (.checkConfirmation { todo with minedUnconfirmed := rest })
  | confirmed (tx : CompletedTransactionRow) (rest : List CompletedTransactionRow)
      (minedHeight : Nat) (sentPayref : PaymentReference) (todo : PendingTransactionsByStatus)
      (htodo : todo.minedUnconfirmed = tx :: rest) :
      MonitorStep m (.checkConfirmation todo)
        (.markCompletedTransactionAsConfirmed tx.id (asI64 m.currentChainHeight) sentPayref ch.now)
        (.recordConfirmed tx minedHeight { todo with minedUnconfirmed := rest })
  | done (todo : PendingTransactionsByStatus) : MonitorStep m (.checkConfirmation todo) .read .ok
  | recordedRejected (tx : CompletedTransactionRow) (reason : String)
      (todo : PendingTransactionsByStatus) (y : DbM Unit) (hy : Keeps Db.ledger y) :
      MonitorStep m (.recordRejected tx reason todo) (.record y hy) (.rebroadcast todo)
  | recordedBroadcast (tx : CompletedTransactionRow) (todo : PendingTransactionsByStatus)
      (y : DbM Unit) (hy : Keeps Db.ledger y) :
      MonitorStep m (.recordBroadcast tx todo) (.record y hy) (.rebroadcast todo)
  | recordedMined (tx : CompletedTransactionRow) (blockHeight : Nat)
      (todo : PendingTransactionsByStatus) (y : DbM Unit) (hy : Keeps Db.ledger y) :
      MonitorStep m (.recordMined tx blockHeight todo) (.record y hy) (.checkMining todo)
  | recordedConfirmed (tx : CompletedTransactionRow) (minedHeight : Nat)
      (todo : PendingTransactionsByStatus) (y : DbM Unit) (hy : Keeps Db.ledger y) :
      MonitorStep m (.recordConfirmed tx minedHeight todo) (.record y hy) (.checkConfirmation todo)
  | failed (st : MonitorState) (e : TransactionError) : MonitorStep m st .read (.failed e)
  | notRecorded (st : MonitorState) (e : TransactionError) (y : DbM Unit)
      (hy : Keeps Db.ledger y) : MonitorStep m st (.record y hy) (.failed e)

inductive CallStep : Call → Statement → Call → Prop where
  | lock {req : LockFundsRequest} {st st' : LockState} {x : Statement}
      (h : LockStep env ch db req st x st') : CallStep (.lock req st) x (.lock req st')
  | start {req : StartRequest} {st st' : StartState} {x : Statement}
      (h : StartStep env ch db req st x st') : CallStep (.start req st) x (.start req st')
  | finalize {prepared : PreparedTransaction} {signed : SignedTransaction} {st st' : FinalizeState}
      {x : Statement} (h : FinalizeStep ch db prepared signed st x st') :
      CallStep (.finalize prepared signed st) x (.finalize prepared signed st')
  | unlocker {st st' : UnlockerState} {x : Statement} (h : UnlockerStep db st x st') :
      CallStep (.unlocker st) x (.unlocker st')
  | monitor {m : TransactionMonitor} {st st' : MonitorState} {x : Statement}
      (h : MonitorStep ch db m st x st') : CallStep (.monitor m st) x (.monitor m st')

end Steps

variable {env : TransactionEnv} {ch : Choice} {db : Db} {x : Statement}

theorem LockState.next_step {req : LockFundsRequest} {st st' : LockState}
    (h : st.next env ch db req = some (x, st')) : LockStep env ch db req st x st' := by
  cases st with
  | find =>
      simp only [LockState.next] at h
      split at h
      · next pending hfind =>
          cases h
          obtain ⟨key, -, hkey⟩ := Option.bind_eq_some_iff.mp hfind
          exact .resume pending key hkey
      · cases h; exact .search
  | fetchExisting pending => cases h; exact .fetched pending _
  | selecting s =>
      simp only [LockState.next] at h
      split at h
      · cases h; exact .notSelected s _
      · cases h; exact .selecting s _
      · next selection hsel => cases h; exact .selected s selection hsel
  | transaction selection =>
      simp only [LockState.next] at h
      split at h
      · next e hc =>
          cases h
          exact .notCreated _ e hc
      · next db' hc =>
          cases h
          exact .created _ _ db' rfl (fun key hkey => by simp [hkey]) rfl hc
  | ok id utxos result => cases h
  | failed e => cases h

theorem StartState.next_step {req : StartRequest} {st st' : StartState}
    (h : st.next env ch db req = some (x, st')) : StartStep env ch db req st x st' := by
  cases st with
  | validate =>
      simp only [StartState.next] at h
      split at h
      · cases h; exact .notValid _
      · next hcompleted =>
          split at h
          · cases h; exact .notValid _
          · cases h; exact .validated (by simpa using hcompleted)
  | find =>
      simp only [StartState.next] at h
      split at h
      · next pending hfind => cases h; exact .resume pending hfind
      · cases h; exact .search _
  | selecting expiresAt s =>
      simp only [StartState.next] at h
      split at h
      · cases h; exact .notSelected expiresAt s _
      · next s' hnext => cases h; exact .selecting expiresAt s s' hnext
      · next selection hsel => cases h; exact .selected expiresAt s selection hsel
  | create expiresAt selection =>
      simp only [StartState.next] at h
      split at h
      · next e hc =>
          cases h
          exact .notCreated _ e hc
      · next db' hc =>
          cases h
          exact .created _ db' rfl rfl rfl hc
  | locking id expiresAt utxos todo =>
      cases todo with
      | nil => cases h; exact .allLocked id expiresAt utxos
      | cons utxo rest => cases h; exact .locked id expiresAt utxos rest utxo
  | fetch id => cases h; exact .fetched id
  | build id selectedUtxos inputs =>
      simp only [StartState.next] at h
      split at h
      · cases h; exact .notBuilt id selectedUtxos inputs _
      · next hbuilt =>
          cases h
          exact .built id selectedUtxos inputs _ rfl rfl rfl rfl hbuilt
  | expire id e => cases h; exact .expired id e
  | unlock id e => cases h; exact .unlocked id e
  | ok prepared => cases h
  | failed e => cases h

theorem FinalizeState.next_step {prepared : PreparedTransaction} {signed : SignedTransaction}
    {st st' : FinalizeState} (h : st.next ch db prepared signed = some (x, st')) :
    FinalizeStep ch db prepared signed st x st' := by
  cases st with
  | checkExpired =>
      simp only [FinalizeState.next] at h
      split at h
      · cases h; exact .isExpired
      · cases h; exact .notExpired
  | setExpired => cases h; exact .setExpired _
  | setCompleted =>
      simp only [FinalizeState.next] at h
      split at h
      · cases h; exact .notSerialized _
      · cases h; exact .setCompleted
  | createCompleted =>
      simp only [FinalizeState.next] at h
      split at h
      · next e hc =>
          cases h
          exact .notCreated _ e hc
      · next db' hc =>
          cases h
          exact .created _ db' rfl rfl rfl hc
  | connect =>
      simp only [FinalizeState.next] at h
      split at h
      · cases h; exact .notConnected _
      · cases h; exact .connected
  | markRejected reason e => cases h; exact .rejected reason e
  | markBroadcasted => cases h; exact .broadcasted
  | display =>
      simp only [FinalizeState.next] at h
      split at h
      · cases h; exact .notDisplayed _
      · next tx _ =>
          cases h
          exact .displayed _ (insertDisplayedTransaction_keeps tx)
  | expire e => cases h; exact .expired e
  | unlock e => cases h; exact .unlocked e
  | submit retries => cases h
  | await retries messageId => cases h
  | ok => cases h
  | failed e => cases h

theorem UnlockerState.step_step {st st' : UnlockerState} (h : st.step ch db = some (x, st')) :
    UnlockerStep db st x st' := by
  cases st with
  | list => cases h; exact .list ch.now
  | next expiredTxs =>
      cases expiredTxs with
      | nil => cases h
      | cons id rest => cases h; exact .expired id rest

/-- A step that records leads to the next state or, when it fails, ends the cycle. -/
theorem recording_step {m : TransactionMonitor} {y : DbM Unit} {hy : Keeps Db.ledger y}
    {st next st' : MonitorState} (h : TransactionMonitor.recording db y hy next = some (x, st'))
    (hnext : MonitorStep ch db m st (.record y hy) next) : MonitorStep ch db m st x st' := by
  unfold TransactionMonitor.recording at h
  cases hrun : y ⟨db, none⟩ with
  | ok a c =>
      rw [hrun] at h
      cases h
      exact hnext
  | error e c =>
      rw [hrun] at h
      cases h
      exact .notRecorded st _ y hy

theorem MonitorState.next_step {m : TransactionMonitor} {st st' : MonitorState}
    (h : st.next env ch db m = some (x, st')) : MonitorStep ch db m st x st' := by
  cases st with
  | list => cases h; exact .list
  | rebroadcast todo =>
      simp only [MonitorState.next] at h
      split at h
      · next htodo => cases h; exact .rebroadcastDone todo htodo
      · next tx rest htodo =>
          split at h
          · next hattempts => cases h; exact .exceeded tx rest _ todo htodo hattempts
          · next hattempts => cases h; exact .rebroadcast tx rest todo htodo (by omega)
  | markRejected tx reason todo => cases h; exact .rejected tx reason todo
  | unlock tx reason todo => cases h; exact .unlocked tx reason todo
  | recordRejected tx reason todo =>
      exact recording_step h (.recordedRejected tx reason todo _ _)
  | markBroadcasted tx todo => cases h; exact .broadcasted tx todo
  | recordBroadcast tx todo =>
      exact recording_step h (.recordedBroadcast tx todo _ _)
  | checkMining todo =>
      simp only [MonitorState.next] at h
      split at h
      · cases h; exact .miningDone todo
      · next tx rest htodo =>
          split at h
          · cases h; exact .failed _ _
          · cases h; exact .notMined tx rest todo htodo
          · cases h; exact .mined tx rest _ _ todo htodo
  | markMined tx blockHeight blockHash todo => cases h; exact .markedMined tx _ _ todo
  | recordMined tx blockHeight todo =>
      exact recording_step h (.recordedMined tx blockHeight todo _ _)
  | checkConfirmation todo =>
      simp only [MonitorState.next] at h
      split at h
      · cases h; exact .done todo
      · next tx rest htodo =>
          split at h
          · cases h; exact .notConfirmed tx rest todo htodo
          · next height _ =>
              split at h
              · split at h
                · cases h; exact .failed _ _
                · cases h; exact .failed _ _
                · cases h; exact .confirmed tx rest _ _ todo htodo
              · cases h; exact .notConfirmed tx rest todo htodo
  | recordConfirmed tx minedHeight todo =>
      exact recording_step h (.recordedConfirmed tx minedHeight todo _ _)
  | submit tx retries todo => cases h
  | await tx retries messageId todo => cases h
  | ok => cases h
  | failed e => cases h

theorem Call.next_step {c c' : Call} (h : c.next env ch db = some (x, c')) :
    CallStep env ch db c x c' := by
  cases c with
  | lock req st =>
      obtain ⟨⟨x', st'⟩, hst, heq⟩ := Option.map_eq_some_iff.mp h
      cases heq
      exact .lock (LockState.next_step hst)
  | start req st =>
      obtain ⟨⟨x', st'⟩, hst, heq⟩ := Option.map_eq_some_iff.mp h
      cases heq
      exact .start (StartState.next_step hst)
  | finalize prepared signed st =>
      obtain ⟨⟨x', st'⟩, hst, heq⟩ := Option.map_eq_some_iff.mp h
      cases heq
      exact .finalize (FinalizeState.next_step hst)
  | unlocker st =>
      obtain ⟨⟨x', st'⟩, hst, heq⟩ := Option.map_eq_some_iff.mp h
      cases heq
      exact .unlocker (UnlockerState.step_step hst)
  | monitor m st =>
      obtain ⟨⟨x', st'⟩, hst, heq⟩ := Option.map_eq_some_iff.mp h
      cases heq
      exact .monitor (MonitorState.next_step hst)

/-! ## What the next statement of a call sets and unlocks -/

namespace Call

/-- The pending transaction whose outputs the next statement unlocks. -/
def toUnlock : Call → Option RequestId
  | .start _ (.unlock id _) => some id
  | .finalize prepared _ (.unlock _) => some prepared.id
  | .unlocker (.next (id :: _)) => some id
  | .monitor _ (.unlock tx _ _) => some tx.pendingTxId
  | _ => none

/-- The pending transaction that the next statement sets `Expired`. -/
def toExpire : Call → Option RequestId
  | .start _ (.expire id _) => some id
  | .finalize prepared _ .setExpired => some prepared.id
  | .finalize prepared _ (.expire _) => some prepared.id
  | .unlocker (.next (id :: _)) => some id
  | _ => none

/-- What the next statement sets `Completed`. -/
def toComplete : Call → Option PreparedTransaction
  | .finalize prepared _ .setCompleted => some prepared
  | _ => none

/-- The pending transaction that the call found, created or was given. -/
def pendingTxId : Call → Option RequestId
  | .lock _ (.fetchExisting pending) => some pending.id
  | .lock _ (.ok id _ _) => some id
  | .start _ (.locking id _ _ _) => some id
  | .start _ (.fetch id) => some id
  | .start _ (.build id _ _) => some id
  | .start _ (.expire id _) => some id
  | .start _ (.unlock id _) => some id
  | .start _ (.ok prepared) => some prepared.id
  | .finalize prepared _ _ => some prepared.id
  | _ => none

end Call

variable {c c' : Call} {id : RequestId}

theorem CallStep.unlocks (h : CallStep env ch db c x c') : x.unlocks = some id →
    c.toUnlock = some id := by
  intro hx
  cases h with
  | lock h => cases h <;> cases hx
  | start h => cases h <;> cases hx; rfl
  | finalize h => cases h <;> cases hx; rfl
  | unlocker h => cases h <;> cases hx; rfl
  | monitor h => cases h <;> cases hx; rfl

theorem CallStep.sets {status : PendingTransactionStatus} (h : CallStep env ch db c x c') :
    x.sets = some (id, status) → (status = .expired ∧ c.toExpire = some id) ∨
      (status = .completed ∧ ∃ prepared, c.toComplete = some prepared ∧ prepared.id = id) := by
  intro hx
  cases h with
  | lock h => cases h <;> cases hx
  | start h => cases h <;> cases hx; exact Or.inl ⟨rfl, rfl⟩
  | finalize h =>
      cases h <;> cases hx
      · exact Or.inl ⟨rfl, rfl⟩
      · exact Or.inr ⟨rfl, _, rfl, rfl⟩
      · exact Or.inl ⟨rfl, rfl⟩
  | unlocker h => cases h <;> cases hx; exact Or.inl ⟨rfl, rfl⟩
  | monitor h => cases h <;> cases hx

theorem findPendingTransactionByIdempotencyKey_recorded {key : IdempotencyKey}
    {accountId : AccountId} {pending : PendingTransaction}
    (h : db.findPendingTransactionByIdempotencyKey key accountId = some pending) :
    PendingExists db.pendingTransactions pending.id := by
  obtain ⟨p, hp, rfl⟩ := Option.map_eq_some_iff.mp h
  exact ⟨p, (Table.find?_some hp).1, rfl⟩

theorem createPending_recorded {new : NewPendingTransaction} {db' : Db}
    (h : db.createPending new = .ok db') : PendingExists db'.pendingTransactions new.id :=
  ((createPending_hasStatus h new.id .pending).mpr (Or.inr ⟨rfl, rfl⟩)).recorded

theorem StartState.afterLocking_pendingTxId (req : StartRequest) (id : RequestId)
    (utxos : List DbWalletOutput) :
    (Call.start req (.afterLocking id utxos)).pendingTxId = some id := by
  unfold StartState.afterLocking
  split <;> rfl

/-- A call works for a pending transaction that exists. -/
theorem CallStep.recorded (h : CallStep env ch db c x c')
    (hc : ∀ id, c.pendingTxId = some id → PendingExists db.pendingTransactions id) :
    ∀ id, c'.pendingTxId = some id → PendingExists (x.apply db).pendingTransactions id := by
  intro id hid
  cases h with
  | lock h =>
      cases h with
      | resume pending key hfind =>
          cases hid
          exact (findPendingTransactionByIdempotencyKey_recorded hfind).apply _
      | fetched pending result => exact (hc id hid).apply _
      | created new result db' huuid hkey haccount hok =>
          cases hid
          rw [apply_createPendingAndLock hok, lockOutputs_pendingTransactions]
          exact createPending_recorded hok
      | _ => cases hid
  | start h =>
      cases h with
      | resume pending hfind =>
          cases hid
          exact (findPendingTransactionByIdempotencyKey_recorded hfind).apply _
      | created new db' huuid hkey haccount hok =>
          rw [apply_createPending hok]
          split at hid <;> cases hid <;> exact createPending_recorded hok
      | allLocked req expiresAt utxos =>
          rw [StartState.afterLocking_pendingTxId] at hid
          exact (hc id hid).apply _
      | locked req expiresAt utxos rest utxo =>
          refine PendingExists.apply (hc id ?_) _
          split at hid
          · rwa [StartState.afterLocking_pendingTxId] at hid
          · exact hid
      | fetched req => exact (hc id hid).apply _
      | built req selectedUtxos inputs prepared hprepared =>
          cases hid
          exact (hc _ (congrArg some hprepared.symm)).apply _
      | notBuilt req selectedUtxos inputs e => exact (hc id hid).apply _
      | expired req e => exact (hc id hid).apply _
      | _ => cases hid
  | finalize h => exact (hc id hid).apply _
  | unlocker h => cases hid
  | monitor h => cases hid

namespace WalletSystem

variable {s s' : WalletSystem} {i : Nat}

/-- The calls other than call `i`. -/
def others (s : WalletSystem) (i : Nat) : List Call := s.calls.eraseIdx i

theorem mem_others {j : Nat} {c : Call} (hj : j ≠ i) (hc : s.calls[j]? = some c) :
    c ∈ s.others i :=
  List.mem_eraseIdx_iff_getElem?.mpr ⟨j, hj, hc⟩

theorem step_statement (h : s.step env (.statement i ch) = some s') :
    ∃ c x c', s.calls[i]? = some c ∧ c.next env ch s.db = some (x, c') ∧
      CallStep env ch s.db c x c' ∧ s' = { s with db := x.apply s.db, calls := s.calls.set i c' } := by
  obtain ⟨c, hc, h⟩ := Option.bind_eq_some_iff.mp h
  obtain ⟨⟨x, c'⟩, hnext, rfl⟩ := Option.map_eq_some_iff.mp h
  exact ⟨c, x, c', hc, hnext, Call.next_step hnext, rfl⟩

theorem step_finalize {startCall : Nat} {kernelExcess : FixedHash}
    {sentOutputHash : Option FixedHash} {displayed : Except String DisplayedTransaction}
    (h : s.step env (.finalize startCall kernelExcess sentOutputHash displayed) = some s') :
    ∃ req prepared, s.calls[startCall]? = some (.start req (.ok prepared)) ∧
      s' = s.begin (.finalize prepared (prepared.sign kernelExcess sentOutputHash displayed)
        .checkExpired) := by
  obtain ⟨prepared, hprepared, rfl⟩ := Option.map_eq_some_iff.mp h
  unfold prepared? at hprepared
  split at hprepared
  · next req p hcall => cases hprepared; exact ⟨req, prepared, hcall, rfl⟩
  · cases hprepared

theorem step_send (h : s.step env (.send i) = some s') :
    ∃ c id tx, s.calls[i]? = some c ∧ c.toSend = some (id, tx) ∧
      s' = { s with
        calls := s.calls.set i (c.sent s.network.nextId)
        network := { s.network with
          nextId := s.network.nextId + 1
          requests := s.network.requests ++ [(s.network.nextId, tx)] }
        submissions := s.submissions ++ [⟨i, id, tx⟩] } := by
  obtain ⟨c, hc, h⟩ := Option.bind_eq_some_iff.mp h
  obtain ⟨⟨id, tx⟩, hsend, rfl⟩ := Option.map_eq_some_iff.mp h
  exact ⟨c, id, tx, hc, hsend, rfl⟩

theorem step_receive (h : s.step env (.receive i) = some s') :
    ∃ c messageId result, s.calls[i]? = some c ∧ c.awaiting = some messageId ∧
      s.network.responses.lookup messageId = some result ∧
      s' = { s with
        calls := s.calls.set i (c.received result)
        network := { s.network with
          responses := s.network.responses.filter (·.1 != messageId) } } := by
  obtain ⟨c, hc, h⟩ := Option.bind_eq_some_iff.mp h
  obtain ⟨messageId, hawait, h⟩ := Option.bind_eq_some_iff.mp h
  obtain ⟨result, hresult, rfl⟩ := Option.map_eq_some_iff.mp h
  exact ⟨c, messageId, result, hc, hawait, hresult, rfl⟩

/-- A transport error makes the call send again, or return the error. -/
theorem step_transportError {retry : Bool} {message : String}
    (h : s.step env (.transportError i retry message) = some s') :
    ∃ c c', s.calls[i]? = some c ∧ s' = { s with calls := s.calls.set i c' } ∧
      ((retry = true ∧ c.retry = some c') ∨
        (retry = false ∧ (∃ messageId, c.awaiting = some messageId) ∧
          c' = c.received (.error message))) := by
  cases retry with
  | true =>
      obtain ⟨c, hc, h⟩ := Option.bind_eq_some_iff.mp h
      obtain ⟨c', hretry, rfl⟩ := Option.map_eq_some_iff.mp h
      exact ⟨c, c', hc, rfl, Or.inl ⟨rfl, hretry⟩⟩
  | false =>
      obtain ⟨c, hc, h⟩ := Option.bind_eq_some_iff.mp h
      obtain ⟨messageId, hawait, rfl⟩ := Option.map_eq_some_iff.mp h
      exact ⟨c, _, hc, rfl, Or.inr ⟨rfl, ⟨messageId, hawait⟩, rfl⟩⟩

theorem step_answer {messageId : Nat} {result : Except String TxSubmissionResponse}
    (h : s.step env (.answer messageId result) = some s') :
    ∃ tx, (messageId, tx) ∈ s.network.requests ∧
      s' = { s with
        network := { s.network with
          requests := s.network.requests.filter (·.1 != messageId)
          responses := s.network.responses ++ [(messageId, result)]
          held := if accepts result then s.network.held ++ [tx] else s.network.held
          rejected := if rejects result then s.network.rejected ++ [tx]
            else s.network.rejected } } := by
  obtain ⟨tx, htx, rfl⟩ := Option.map_eq_some_iff.mp h
  obtain ⟨l₁, l₂, hl, -⟩ := List.lookup_eq_some_iff.mp htx
  exact ⟨tx, by simp [hl], rfl⟩

/-- Only statements, blocks and rollbacks touch the database. -/
theorem step_db {a : SystemAction} (h : s.step env a = some s') :
    s'.db = s.db ∨ (∃ i ch, a = .statement i ch) ∨
      (∃ bp block accountId now, a = .processBlock bp block accountId now) ∨
      ∃ accountId height webhookConfig now,
        a = .rollbackFromHeight accountId height webhookConfig now := by
  cases a with
  | statement i ch => exact Or.inr (Or.inl ⟨i, ch, rfl⟩)
  | processBlock bp block accountId now =>
      exact Or.inr (Or.inr (Or.inl ⟨bp, block, accountId, now, rfl⟩))
  | rollbackFromHeight accountId height webhookConfig now =>
      exact Or.inr (Or.inr (Or.inr ⟨accountId, height, webhookConfig, now, rfl⟩))
  | finalize startCall kernelExcess sentOutputHash displayed =>
      obtain ⟨_, _, -, rfl⟩ := step_finalize h
      exact Or.inl rfl
  | send i => obtain ⟨_, _, _, -, -, rfl⟩ := step_send h; exact Or.inl rfl
  | receive i => obtain ⟨_, _, _, -, -, -, rfl⟩ := step_receive h; exact Or.inl rfl
  | transportError i retry message =>
      obtain ⟨_, _, -, rfl, -⟩ := step_transportError h
      exact Or.inl rfl
  | answer messageId result => obtain ⟨_, -, rfl⟩ := step_answer h; exact Or.inl rfl
  | _ => cases h; exact Or.inl rfl

theorem step_processBlock {bp : BlockProcessor} {block : BlockScanResult} {accountId : AccountId}
    {now : Timestamp} (h : s.step env (.processBlock bp block accountId now) = some s') :
    ∃ db, s' = { s with db } ∧ ScannedFrom s.db.outputs db.outputs ∧
      db.pendingTransactions = s.db.pendingTransactions ∧
      db.completedTransactions = s.db.completedTransactions := by
  obtain ⟨⟨outcome, db⟩, hrun, rfl⟩ := Option.map_eq_some_iff.mp h
  exact ⟨db, rfl, processBlock_tables hrun⟩

theorem step_rollbackFromHeight {accountId : AccountId} {height : Nat}
    {webhookConfig : Option WebhookTriggerConfig} {now : Timestamp}
    (h : s.step env (.rollbackFromHeight accountId height webhookConfig now) = some s') :
    ∃ db, s' = { s with db } ∧ db.outputs = (s.db.setOutputsDeleted accountId height now).outputs ∧
      db.pendingTransactions = (s.db.cancelPendingTransactionsByIds (cancelledPendingTxIds
        (s.db.getActiveOutputsFromHeight accountId height)) .cancelled).pendingTransactions ∧
      db.completedTransactions = (s.db.resetMinedCompletedTransactionsFromHeight accountId height
        now).completedTransactions := by
  obtain ⟨⟨info, db⟩, hrun, rfl⟩ := Option.map_eq_some_iff.mp h
  obtain ⟨c, hc, rfl⟩ := runOk_eq_some.mp hrun
  have hrolled := rollbackFromHeight_rolledBack hc
  exact ⟨_, rfl, hrolled.outputs, hrolled.pending, hrolled.completed⟩

/-- How a call comes to be where it is after an action: it was there before, it moved, or it is
    new. -/
inductive CallMove (env : TransactionEnv) (s s' : WalletSystem) :
    SystemAction → Nat → Call → Prop where
  | stay {a : SystemAction} {j : Nat} {c : Call} (hc : s.calls[j]? = some c) :
      CallMove env s s' a j c
  | statement {j : Nat} {ch : Choice} {c c' : Call} {x : Statement} (hc : s.calls[j]? = some c)
      (h : CallStep env ch s.db c x c') (hdb : s'.db = x.apply s.db) :
      CallMove env s s' (.statement j ch) j c'
  | send {j : Nat} {c : Call} {id : RequestId} {tx : Transaction} (hc : s.calls[j]? = some c)
      (h : c.toSend = some (id, tx)) : CallMove env s s' (.send j) j (c.sent s.network.nextId)
  | receive {j messageId : Nat} {c : Call} {result : Except String TxSubmissionResponse}
      (hc : s.calls[j]? = some c) (hawait : c.awaiting = some messageId)
      (h : s.network.responses.lookup messageId = some result) :
      CallMove env s s' (.receive j) j (c.received result)
  | retry {j : Nat} {c c' : Call} {message : String} (hc : s.calls[j]? = some c)
      (h : c.retry = some c') : CallMove env s s' (.transportError j true message) j c'
  | fail {j messageId : Nat} {c : Call} {message : String} (hc : s.calls[j]? = some c)
      (hawait : c.awaiting = some messageId) :
      CallMove env s s' (.transportError j false message) j (c.received (.error message))
  | lock (req : LockFundsRequest) :
      CallMove env s s' (.lock req) s.calls.length (.lock req .find)
  | start (req : StartRequest) :
      CallMove env s s' (.startNewTransaction req) s.calls.length (.start req .validate)
  | finalize {startCall : Nat} {req : StartRequest} {prepared : PreparedTransaction}
      (kernelExcess : FixedHash) (sentOutputHash : Option FixedHash)
      (displayed : Except String DisplayedTransaction)
      (hc : s.calls[startCall]? = some (.start req (.ok prepared))) :
      CallMove env s s' (.finalize startCall kernelExcess sentOutputHash displayed) s.calls.length
        (.finalize prepared (prepared.sign kernelExcess sentOutputHash displayed) .checkExpired)
  | unlocker : CallMove env s s' .unlockExpiredTransactions s.calls.length (.unlocker .list)
  | monitor (m : TransactionMonitor) :
      CallMove env s s' (.monitor m) s.calls.length (.monitor m .list)

theorem step_calls {a : SystemAction} {j : Nat} {c' : Call} (h : s.step env a = some s')
    (hj : s'.calls[j]? = some c') : CallMove env s s' a j c' := by
  cases a with
  | lock req =>
      cases h
      rcases Processes.getElem?_append_cases hj with hj | ⟨rfl, rfl⟩
      · exact .stay hj
      · exact .lock req
  | startNewTransaction req =>
      cases h
      rcases Processes.getElem?_append_cases hj with hj | ⟨rfl, rfl⟩
      · exact .stay hj
      · exact .start req
  | finalize startCall kernelExcess sentOutputHash displayed =>
      obtain ⟨req, prepared, hstart, rfl⟩ := step_finalize h
      rcases Processes.getElem?_append_cases hj with hj | ⟨rfl, rfl⟩
      · exact .stay hj
      · exact .finalize _ _ _ hstart
  | unlockExpiredTransactions =>
      cases h
      rcases Processes.getElem?_append_cases hj with hj | ⟨rfl, rfl⟩
      · exact .stay hj
      · exact .unlocker
  | monitor m =>
      cases h
      rcases Processes.getElem?_append_cases hj with hj | ⟨rfl, rfl⟩
      · exact .stay hj
      · exact .monitor m
  | statement i ch =>
      obtain ⟨c, x, d, hc, -, hcall, rfl⟩ := step_statement h
      rcases Processes.getElem?_set_cases hj with ⟨rfl, rfl⟩ | ⟨-, hj⟩
      · exact .statement hc hcall rfl
      · exact .stay hj
  | send i =>
      obtain ⟨c, id, tx, hc, hsend, rfl⟩ := step_send h
      rcases Processes.getElem?_set_cases hj with ⟨rfl, rfl⟩ | ⟨-, hj⟩
      · exact .send hc hsend
      · exact .stay hj
  | receive i =>
      obtain ⟨c, messageId, result, hc, hawait, hresult, rfl⟩ := step_receive h
      rcases Processes.getElem?_set_cases hj with ⟨rfl, rfl⟩ | ⟨-, hj⟩
      · exact .receive hc hawait hresult
      · exact .stay hj
  | transportError i retry message =>
      obtain ⟨c, d, hc, rfl, hcase⟩ := step_transportError h
      rcases Processes.getElem?_set_cases hj with ⟨rfl, rfl⟩ | ⟨-, hj⟩
      · rcases hcase with ⟨rfl, hretry⟩ | ⟨rfl, ⟨messageId, hawait⟩, rfl⟩
        · exact .retry hc hretry
        · exact .fail hc hawait
      · exact .stay hj
  | answer messageId result =>
      obtain ⟨tx, -, rfl⟩ := step_answer h
      exact .stay hj
  | loseRequest messageId => cases h; exact .stay hj
  | loseResponse messageId => cases h; exact .stay hj
  | processBlock bp block accountId now =>
      obtain ⟨db, rfl, -⟩ := step_processBlock h
      exact .stay hj
  | rollbackFromHeight accountId height webhookConfig now =>
      obtain ⟨db, rfl, -⟩ := step_rollbackFromHeight h
      exact .stay hj

end WalletSystem

end MinotariWallet
