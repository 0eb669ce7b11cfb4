import MinotariWallet.Displayed.Payrefs
import MinotariWallet.Transactions.System

set_option autoImplicit false

/-! # The transaction of a retried send

A start call that finds the pending transaction of its key builds with the outputs that are locked for
it, and leaves `selected_utxos` empty. The displayed transaction of the send is made from
`selected_utxos`. -/

namespace MinotariWallet

open Sql Exec Transition

/-- A start call by itself, with the choices and the database that each of its statements sees. -/
def StartRequest.step (env : TransactionEnv) (req : StartRequest) (st : StartState)
    (seen : Choice × Db) : Option StartState :=
  (st.next env seen.1 seen.2 req).map (·.2)

/-- The result of signing, with the transaction that is displayed for it. -/
def PreparedTransaction.signOutputs (ext : Externals) (prepared : PreparedTransaction)
    (kernelExcess : FixedHash) (signed : SignedOutputs) (fee : MicroMinotari) (now : Timestamp) :
    SignedTransaction :=
  prepared.sign kernelExcess signed.sentHashes.head?
    (match buildPendingDisplayedTransaction ext prepared signed fee now with
      | .ok tx => .ok tx
      | .error e => .error s!"Failed to build displayed transaction: {e.toString}")

/-- How a first send is recorded: it is outgoing, with the outputs that are locked for it, what they
    are worth, and the amount that does not come back as change. -/
structure RecordedAsSent (prepared : PreparedTransaction) (signed : SignedOutputs)
    (tx : DisplayedTransaction) : Prop where
  direction : tx.direction = .outgoing
  inputs : tx.details.inputs = prepared.inputs.map (·.toTransactionInput)
  totalDebit : tx.details.totalDebit = (prepared.inputs.map (·.output.value)).sum
  amount : tx.amount = tx.details.totalDebit - (signed.changeOutput.map (·.2)).getD 0

/-! ## What a start call prepares -/

/-- The call resumes a pending transaction, or has failed. -/
def StartState.resumed : StartState → Prop
  | .fetch _ => True
  | .build _ selectedUtxos _ => selectedUtxos = []
  | .ok prepared => prepared.selectedUtxos = []
  | .expire _ _ => True
  | .unlock _ _ => True
  | .failed _ => True
  | _ => False

/-- The call builds with the outputs that it has selected, or has failed. -/
def StartState.selected (utxos : List DbWalletOutput) : StartState → Prop
  | .create _ selection => selection.utxos = utxos
  | .locking _ _ us _ => us = utxos
  | .build _ selectedUtxos inputs => selectedUtxos = utxos ∧ inputs = utxos
  | .ok prepared => prepared.selectedUtxos = utxos ∧ prepared.inputs = utxos
  | .expire _ _ => True
  | .unlock _ _ => True
  | .failed _ => True
  | _ => False

variable {env : TransactionEnv} {req : StartRequest} {st st' : StartState} {seen : Choice × Db}

theorem StartState.resumed_step (h : st.resumed) (hstep : req.step env st seen = some st') :
    st'.resumed := by
  obtain ⟨⟨x, st''⟩, hnext, rfl⟩ := Option.map_eq_some_iff.mp hstep
  cases st with
  | fetch id =>
      cases hnext
      rfl
  | build id selectedUtxos inputs =>
      simp only [StartState.next] at hnext
      split at hnext
      · cases hnext
        trivial
      · cases hnext
        exact h
  | expire id e =>
      cases hnext
      trivial
  | unlock id e =>
      cases hnext
      trivial
  | ok prepared => cases hnext
  | failed e => cases hnext
  | _ => exact h.elim

theorem StartState.selected_afterLocking {id : RequestId} {utxos : List DbWalletOutput}
    (hne : utxos ≠ []) : (StartState.afterLocking id utxos).selected utxos := by
  rw [StartState.afterLocking, if_neg (by simpa using hne)]
  exact ⟨rfl, rfl⟩

theorem StartState.selected_step {utxos : List DbWalletOutput} (hne : utxos ≠ [])
    (h : st.selected utxos) (hstep : req.step env st seen = some st') : st'.selected utxos := by
  obtain ⟨⟨x, st''⟩, hnext, rfl⟩ := Option.map_eq_some_iff.mp hstep
  cases st with
  | create expiresAt selection =>
      obtain rfl : selection.utxos = utxos := h
      have hempty : ¬selection.utxos.isEmpty = true := by simpa using hne
      simp only [StartState.next, if_neg hempty] at hnext
      split at hnext
      · cases hnext
        trivial
      · cases hnext
        rfl
  | locking id expiresAt us todo =>
      obtain rfl : us = utxos := h
      cases todo with
      | nil =>
          cases hnext
          exact StartState.selected_afterLocking hne
      | cons utxo rest =>
          simp only [StartState.next, Option.some.injEq, Prod.mk.injEq] at hnext
          obtain ⟨-, rfl⟩ := hnext
          split
          · exact StartState.selected_afterLocking hne
          · rfl
  | build id selectedUtxos inputs =>
      simp only [StartState.next] at hnext
      split at hnext
      · cases hnext
        trivial
      · cases hnext
        exact h
  | expire id e =>
      cases hnext
      trivial
  | unlock id e =>
      cases hnext
      trivial
  | ok prepared => cases hnext
  | failed e => cases hnext
  | _ => exact h.elim

/-- A call that finds a pending transaction for its key goes on with it. -/
theorem StartState.resumed_of_find {ch : Choice} {db : Db} {pending : PendingTransaction}
    (hfind : db.findPendingTransactionByIdempotencyKey req.idempotencyKey req.accountId =
      some pending) (hstep : req.step env .find (ch, db) = some st') : st'.resumed := by
  simp only [StartRequest.step, StartState.next, hfind, Option.map_some, Option.some.injEq] at hstep
  exact hstep ▸ trivial

/-! ## What is displayed -/

variable {ext : Externals} {prepared : PreparedTransaction} {kernelExcess : FixedHash}
  {signed : SignedOutputs} {fee : MicroMinotari} {now : Timestamp}

/-- The amount and the direction follow from the debit, whatever the builder had before. -/
theorem build_creditsAndDebits (ext : Externals) (b : DisplayedTransactionBuilder)
    (credit debit : MicroMinotari) (height : Nat) (hash : FixedHash) (timestamp : Timestamp)
    (confirmations : Nat) (id : TxId) :
    ∃ tx, ((b.creditsAndDebits credit debit).blockchainInfo height hash timestamp
        confirmations).build ext id = .ok tx ∧
      tx.id = id ∧ tx.details.inputs = b.inputs ∧ tx.details.totalDebit = debit ∧
      tx.direction = (if 0 < debit then .outgoing else .incoming) ∧
      tx.amount = (if 0 < debit then debit - credit else credit) := by
  unfold DisplayedTransactionBuilder.creditsAndDebits
  by_cases hdebit : 0 < debit
  · simp only [if_pos hdebit]
    exact ⟨_, rfl, rfl, rfl, rfl, rfl, rfl⟩
  · simp only [if_neg hdebit]
    exact ⟨_, rfl, rfl, rfl, rfl, rfl, rfl⟩

/-- What the outputs of the call are worth in the pending transaction. -/
theorem buildPendingDisplayedTransaction_amounts (ext : Externals) (prepared : PreparedTransaction)
    (signed : SignedOutputs) (fee : MicroMinotari) (now : Timestamp) :
    ∃ tx, buildPendingDisplayedTransaction ext prepared signed fee now = .ok tx ∧
      tx.id = prepared.txId ∧
      tx.details.inputs = prepared.selectedUtxos.map (·.toTransactionInput) ∧
      tx.details.totalDebit = (prepared.selectedUtxos.map (·.output.value)).sum ∧
      tx.direction = (if 0 < tx.details.totalDebit then .outgoing else .incoming) ∧
      tx.amount = (if 0 < tx.details.totalDebit then
        tx.details.totalDebit - (signed.changeOutput.map (·.2)).getD 0
        else (signed.changeOutput.map (·.2)).getD 0) := by
  obtain ⟨tx, hbuild, hid, hinputs, hdebit, hdirection, hamount⟩ := build_creditsAndDebits ext {
    accountId := some prepared.accountId
    direction := some .outgoing
    status := some .pending
    source := some .oneSided
    message := prepared.recipient.paymentId
    counterpartyAddress := some prepared.recipient.address
    fee := some fee
    inputs := prepared.selectedUtxos.map (·.toTransactionInput)
    outputs := signed.outputs.map (unminedOutput false) ++
      (signed.changeOutput.map (unminedOutput true)).toList
    sentOutputHashes := signed.sentHashes }
    ((signed.changeOutput.map (·.2)).getD 0) (prepared.selectedUtxos.map (·.output.value)).sum
    0 0 now 0 prepared.txId
  exact ⟨tx, hbuild, hid, hinputs, hdebit, hdebit.symm ▸ hdirection, hdebit.symm ▸ hamount⟩

/-- The last statement of a finalize call stores the pending transaction under its id. -/
theorem display_stores {ch : Choice} {db : Db} {x : Statement} {st : FinalizeState}
    (h : FinalizeState.next ch db prepared
      (prepared.signOutputs ext kernelExcess signed fee now) .display = some (x, st)) :
    ∃ tx, buildPendingDisplayedTransaction ext prepared signed fee now = .ok tx ∧
      tx.id = prepared.txId ∧ x.apply db = db.insertDisplayedTransaction tx := by
  obtain ⟨tx, hbuild, hid, -⟩ :=
    buildPendingDisplayedTransaction_amounts ext prepared signed fee now
  refine ⟨tx, hbuild, hid, ?_⟩
  simp only [FinalizeState.next, PreparedTransaction.signOutputs, PreparedTransaction.sign, hbuild,
    Option.some.injEq, Prod.mk.injEq] at h
  obtain ⟨rfl, -⟩ := h
  rfl

/-- The row of a displayed transaction that was inserted has it. -/
theorem insertDisplayedTransaction_row (db : Db) (tx : DisplayedTransaction) :
    (∃ d ∈ (db.insertDisplayedTransaction tx).displayedTransactions.rows, d.id = tx.id) ∧
      ∀ d ∈ (db.insertDisplayedTransaction tx).displayedTransactions.rows, d.id = tx.id →
        d.transaction = tx := by
  unfold Db.insertDisplayedTransaction
  split
  · next t ht =>
      obtain ⟨hrows, hfresh⟩ := Table.insert?_some ht
      refine ⟨⟨_, (Table.mem_insert? ht).mpr (Or.inr rfl), rfl⟩, fun d hd hid => ?_⟩
      rcases (Table.mem_insert? ht).mp hd with hd | rfl
      · exact absurd hid (hfresh d hd)
      · rfl
  · next ht =>
      obtain ⟨d, hd, hid⟩ := Table.insert?_none ht
      refine ⟨⟨_, (Table.mem_updateWhere (by intro _; rfl)).mpr ⟨d, hd, rfl⟩, ?_⟩,
        fun d' hd' hid' => ?_⟩
      · rw [apply_ite DisplayedTransactionRow.id, ite_self]
        exact hid
      · obtain ⟨d₀, -, rfl⟩ := (Table.mem_updateWhere (by intro _; rfl)).mp hd'
        by_cases hid₀ : (d₀.id == tx.id) = true
        · rw [if_pos hid₀]
        · rw [if_neg hid₀] at hid'
          exact absurd (beq_iff_eq.mpr hid') hid₀

/-- A transaction that was built from what the call selected is recorded as sent. -/
theorem recordedAsSent_of_selected (ext : Externals) (fee : MicroMinotari) (now : Timestamp)
    {tx : DisplayedTransaction} (hselected : prepared.selectedUtxos = prepared.inputs)
    (hpos : 0 < (prepared.inputs.map (·.output.value)).sum)
    (hbuild : buildPendingDisplayedTransaction ext prepared signed fee now = .ok tx) :
    RecordedAsSent prepared signed tx := by
  obtain ⟨tx', hbuild', -, hinputs, hdebit, hdirection, hamount⟩ :=
    buildPendingDisplayedTransaction_amounts ext prepared signed fee now
  obtain rfl : tx' = tx := Except.ok.inj (hbuild'.symm.trans hbuild)
  rw [hselected] at hinputs hdebit
  rw [if_pos (hdebit ▸ hpos)] at hdirection hamount
  exact ⟨hdirection, hinputs, hdebit, hamount⟩

/-- One that was built from nothing is shown as received. -/
theorem not_recordedAsSent_of_resumed (ext : Externals) (fee : MicroMinotari) (now : Timestamp)
    {tx : DisplayedTransaction} (hselected : prepared.selectedUtxos = [])
    (hbuild : buildPendingDisplayedTransaction ext prepared signed fee now = .ok tx) :
    ¬RecordedAsSent prepared signed tx := by
  obtain ⟨tx', hbuild', -, -, hdebit, hdirection, -⟩ :=
    buildPendingDisplayedTransaction_amounts ext prepared signed fee now
  obtain rfl : tx' = tx := Except.ok.inj (hbuild'.symm.trans hbuild)
  rw [hselected] at hdebit
  rw [if_neg (by simp [hdebit])] at hdirection
  intro h
  rw [h.direction] at hdirection
  cases hdirection

/-! ## A retried send -/

/-- A start call that resumes prepares a transaction without `selected_utxos`. -/
theorem selectedUtxos_of_resumed {v : Choice × Db} {ch : Choice} {db : Db}
    {later : List (Choice × Db)} {pending : PendingTransaction}
    (hfind : db.findPendingTransactionByIdempotencyKey req.idempotencyKey req.accountId =
      some pending)
    (hstart : run (req.step env) .validate (v :: (ch, db) :: later) = some (.ok prepared)) :
    prepared.selectedUtxos = [] := by
  obtain ⟨st₁, hvalidate, hrest⟩ := run_cons.mp hstart
  obtain ⟨st₂, hstep, hlater⟩ := run_cons.mp hrest
  have hresumed : st₂.resumed := by
    obtain ⟨⟨x, st₁'⟩, hnext, rfl⟩ := Option.map_eq_some_iff.mp hvalidate
    simp only [StartState.next] at hnext
    split at hnext
    · cases hnext
      cases hstep
    · split at hnext
      · cases hnext
        cases hstep
      · cases hnext
        exact StartState.resumed_of_find hfind hstep
  exact inv_of_steps (I := StartState.resumed)
    (fun st _ st' h hstep => StartState.resumed_step h hstep) hresumed hlater

/-- A start call that creates the pending transaction prepares a transaction with the outputs that
    it selected. -/
theorem selected_of_created {expiresAt : Timestamp} {selection : UtxoSelection}
    {later : List (Choice × Db)} (hne : selection.utxos ≠ [])
    (hstart : run (req.step env) (.create expiresAt selection) later = some (.ok prepared)) :
    prepared.selectedUtxos = selection.utxos ∧ prepared.inputs = selection.utxos := by
  have hcreate : (StartState.create expiresAt selection).selected selection.utxos := rfl
  exact inv_of_steps (I := StartState.selected selection.utxos)
    (fun st _ st' h hstep => StartState.selected_step hne h hstep) hcreate hstart

/-- A start call that creates the pending transaction and selects outputs is displayed as sent. -/
theorem created_recordedAsSent {expiresAt : Timestamp} {selection : UtxoSelection}
    {later : List (Choice × Db)} (hpos : 0 < (selection.utxos.map (·.output.value)).sum)
    (hstart : run (req.step env) (.create expiresAt selection) later = some (.ok prepared))
    {ch : Choice} {db : Db} {x : Statement} {st : FinalizeState}
    (hdisplay : FinalizeState.next ch db prepared
      (prepared.signOutputs ext kernelExcess signed fee now) .display = some (x, st)) :
    ∀ d ∈ (x.apply db).displayedTransactions.rows, d.id = prepared.txId →
      RecordedAsSent prepared signed d.transaction := by
  have hne : selection.utxos ≠ [] := by
    rintro hnil
    simp [hnil] at hpos
  obtain ⟨hselected, hinputs⟩ := selected_of_created hne hstart
  obtain ⟨tx, hbuild, hid, hstored⟩ := display_stores hdisplay
  intro d hd hrow
  rw [hstored] at hd
  rw [(insertDisplayedTransaction_row db tx).2 d hd (hrow.trans hid.symm)]
  exact recordedAsSent_of_selected ext fee now (hselected.trans hinputs.symm)
    (hinputs.symm ▸ hpos) hbuild

/-- A start call that resumes is displayed as received, and not as a first send is. -/
theorem resumed_not_recordedAsSent (env : TransactionEnv) (ext : Externals) (req : StartRequest)
    (v : Choice × Db) (ch : Choice) (db : Db) (later : List (Choice × Db))
    (pending : PendingTransaction) (prepared : PreparedTransaction)
    (hfind : db.findPendingTransactionByIdempotencyKey req.idempotencyKey req.accountId =
      some pending)
    (hstart : run (req.step env) .validate (v :: (ch, db) :: later) = some (.ok prepared))
    (kernelExcess : FixedHash) (signed : SignedOutputs) (fee : MicroMinotari) (now : Timestamp)
    (ch' : Choice) (db' : Db) (x : Statement) (st : FinalizeState)
    (hdisplay : FinalizeState.next ch' db' prepared
      (prepared.signOutputs ext kernelExcess signed fee now) .display = some (x, st)) :
    (∃ d ∈ (x.apply db').displayedTransactions.rows, d.id = prepared.txId) ∧
      ∀ d ∈ (x.apply db').displayedTransactions.rows, d.id = prepared.txId →
        ¬RecordedAsSent prepared signed d.transaction := by
  obtain ⟨tx, hbuild, hid, hstored⟩ := display_stores hdisplay
  obtain ⟨hexists, hrow⟩ := insertDisplayedTransaction_row db' tx
  rw [hstored, ← hid]
  refine ⟨hexists, fun d hd hdid => ?_⟩
  rw [hrow d hd hdid]
  exact not_recordedAsSent_of_resumed ext fee now (selectedUtxos_of_resumed hfind hstart) hbuild

/-- Account 1 after a call that was interrupted once it had locked an output of 1000. -/
def interruptedSend : Option Db := do
  let (_, db) ← runOk (oneAccount.processBlock plainEnv 0
    ⟨10, 110, [(500, { outputHash := 500, value := 1000 }, 0)], [], 1000⟩ 1) .empty
  let db ← (db.createPendingTransaction 1 "payment" 1 true 1000 355 620 1300).toOption
  pure (db.lockOutput 1 1 1300)

def retriedSend : StartRequest where
  accountId := 1
  confirmationWindow := 3
  idempotencyKey := "payment"
  recipient := { address := 9, amount := 60 }
  secondsToLockUtxo := 300

/-- A payment of 60 with a change of 320. -/
def signedRetry : SignedOutputs where
  outputs := [(605, 60)]
  changeOutput := some (604, 320)
  sentHashes := [605]

def StartState.isOk : StartState → Bool
  | .ok _ => true
  | _ => false

/-- The retry goes through, and is displayed. -/
theorem retriedSend_run :
    ∃ db pending prepared x st, interruptedSend = some db ∧
      db.findPendingTransactionByIdempotencyKey retriedSend.idempotencyKey retriedSend.accountId =
        some pending ∧
      run (retriedSend.step plainTransactionEnv) .validate
        (({}, db) :: ({}, db) :: [({}, db), ({ txId := 77 }, db)]) = some (.ok prepared) ∧
      FinalizeState.next {} db prepared
        (prepared.signOutputs plainEnv.toExternals 900 signedRetry 620 1100) .display =
          some (x, st) := by
  have hchecked : interruptedSend.any (fun db =>
      (db.findPendingTransactionByIdempotencyKey retriedSend.idempotencyKey
        retriedSend.accountId).isSome &&
      (run (retriedSend.step plainTransactionEnv) .validate
        (({}, db) :: ({}, db) :: [({}, db), ({ txId := 77 }, db)])).any (·.isOk)) = true := by
    decide +kernel
  obtain ⟨db, hdb, h⟩ := (Option.any_eq_true _ _).mp hchecked
  obtain ⟨hfind, hrun⟩ := Bool.and_eq_true_iff.mp h
  obtain ⟨pending, hpending⟩ := Option.isSome_iff_exists.mp hfind
  obtain ⟨st, hst, hok⟩ := exists_run_of_any hrun
  cases st with
  | ok prepared =>
      obtain ⟨tx, hbuild, -⟩ := buildPendingDisplayedTransaction_amounts plainEnv.toExternals
        prepared signedRetry 620 1100
      refine ⟨db, pending, prepared, .record _ (insertDisplayedTransaction_keeps tx), .ok, hdb,
        hpending, hst, ?_⟩
      simp only [FinalizeState.next, PreparedTransaction.signOutputs, PreparedTransaction.sign,
        hbuild]
  | _ => cases hok

theorem resumed_not_recordedAsSent_retried :
    ∃ db prepared x, interruptedSend = some db ∧
      (∃ d ∈ (Statement.apply db x).displayedTransactions.rows, d.id = prepared.txId) ∧
      ∀ d ∈ (x.apply db).displayedTransactions.rows, d.id = prepared.txId →
        ¬RecordedAsSent prepared signedRetry d.transaction := by
  obtain ⟨db, pending, prepared, x, st, hdb, hfind, hstart, hdisplay⟩ := retriedSend_run
  exact ⟨db, prepared, x, hdb, resumed_not_recordedAsSent plainTransactionEnv plainEnv.toExternals
    retriedSend ({}, db) {} db _ pending prepared hfind hstart 900 signedRetry 620 1100 {} db x st
    hdisplay⟩

/-- The transaction of the retry is not recorded like that of a first send. -/
theorem retriedSend_not_recordedAsSent :
    ¬∀ (env : TransactionEnv) (ext : Externals) (req : StartRequest) (v : Choice × Db) (ch : Choice)
      (db : Db) (later : List (Choice × Db)) (pending : PendingTransaction)
      (prepared : PreparedTransaction),
      db.findPendingTransactionByIdempotencyKey req.idempotencyKey req.accountId = some pending →
      run (req.step env) .validate (v :: (ch, db) :: later) = some (.ok prepared) →
      ∀ (kernelExcess : FixedHash) (signed : SignedOutputs) (fee : MicroMinotari) (now : Timestamp)
        (ch' : Choice) (db' : Db) (x : Statement) (st : FinalizeState),
        FinalizeState.next ch' db' prepared
          (prepared.signOutputs ext kernelExcess signed fee now) .display = some (x, st) →
        ∀ d ∈ (x.apply db').displayedTransactions.rows, d.id = prepared.txId →
          RecordedAsSent prepared signed d.transaction := by
  intro hall
  obtain ⟨db, pending, prepared, x, st, -, hfind, hstart, hdisplay⟩ := retriedSend_run
  have hsent := hall plainTransactionEnv plainEnv.toExternals retriedSend ({}, db) {} db _ pending
    prepared hfind hstart 900 signedRetry 620 1100 {} db x st hdisplay
  obtain ⟨tx, hbuild, hid, hstored⟩ := display_stores hdisplay
  obtain ⟨⟨d, hd, hdid⟩, hrow⟩ := insertDisplayedTransaction_row db tx
  have hselected := selectedUtxos_of_resumed hfind hstart
  refine not_recordedAsSent_of_resumed plainEnv.toExternals 620 1100 hselected hbuild ?_
  exact hrow d hd hdid ▸ hsent d (hstored ▸ hd) (hdid.trans hid)

end MinotariWallet
