import MinotariWallet.Displayed.Built
import MinotariWallet.Displayed.Payrefs
import MinotariWallet.Transactions.Monitor

set_option autoImplicit false

/-! # The status of a displayed transaction and the height it was mined at

A block and the monitor both write the status, each with a function of its own. The one of the
monitor has a third answer, `Pending`, for a transaction without confirmations, and it is asked
about pending transactions too, whose height is 0. -/

namespace MinotariWallet

open Sql Exec Transition DisplayedTransactionProcessor

/-! ## Writing rows -/

/-- The row has the transaction, under its id and with its status. -/
def DisplayedTransactionRow.Holds (d : DisplayedTransactionRow) (tx : DisplayedTransaction) :
    Prop :=
  d.id = tx.id ∧ d.status = tx.status ∧ d.transaction = tx

/-- Every row has one of the transactions written, or is a row from before of another id. -/
def Written (txs : List DisplayedTransaction) (before after : Table DisplayedTransactionRow) :
    Prop :=
  ∀ d ∈ after.rows, (∃ tx ∈ txs, d.Holds tx) ∨ (d ∈ before.rows ∧ ∀ tx ∈ txs, d.id ≠ tx.id)

section Written

variable {before t after : Table DisplayedTransactionRow} {txs txs' : List DisplayedTransaction}

theorem Written.refl (t : Table DisplayedTransactionRow) : Written [] t t :=
  fun _ hd => Or.inr ⟨hd, fun _ htx => by cases htx⟩

theorem Written.append (h : Written txs before t) (h' : Written txs' t after) :
    Written (txs ++ txs') before after := by
  intro d hd
  rcases h' d hd with ⟨tx, htx, hholds⟩ | ⟨hd, hother'⟩
  · exact Or.inl ⟨tx, List.mem_append_right _ htx, hholds⟩
  · rcases h d hd with ⟨tx, htx, hholds⟩ | ⟨hd, hother⟩
    · exact Or.inl ⟨tx, List.mem_append_left _ htx, hholds⟩
    · exact Or.inr ⟨hd, fun tx htx => (List.mem_append.mp htx).elim (hother tx) (hother' tx)⟩

/-- An `UPDATE` of the row with the transaction's id. -/
theorem written_updateWhere (t : Table DisplayedTransactionRow) (tx : DisplayedTransaction)
    {f : DisplayedTransactionRow → DisplayedTransactionRow} (hf : ∀ d, (f d).id = d.id)
    (hstatus : ∀ d, (f d).status = tx.status) (htx : ∀ d, (f d).transaction = tx) :
    Written [tx] t (t.updateWhere (fun d => d.id == tx.id) f hf) := by
  intro d hd
  obtain ⟨d₀, hd₀, rfl⟩ := (Table.mem_updateWhere hf).mp hd
  by_cases hid : (d₀.id == tx.id) = true
  · rw [if_pos hid]
    exact Or.inl ⟨tx, List.mem_singleton_self tx, (hf d₀).trans (beq_iff_eq.mp hid), hstatus d₀,
      htx d₀⟩
  · rw [if_neg hid]
    refine Or.inr ⟨hd₀, fun tx' htx' heq => hid ?_⟩
    rw [List.mem_singleton.mp htx'] at heq
    exact beq_iff_eq.mpr heq

theorem written_insertDisplayedTransaction (db : Db) (tx : DisplayedTransaction) :
    Written [tx] db.displayedTransactions
      (db.insertDisplayedTransaction tx).displayedTransactions := by
  unfold Db.insertDisplayedTransaction
  split
  · next table hinsert =>
      intro d hd
      rcases (Table.mem_insert? hinsert).mp hd with hd | rfl
      · refine Or.inr ⟨hd, fun tx' htx' => ?_⟩
        rw [List.mem_singleton.mp htx']
        exact (Table.insert?_some hinsert).2 d hd
      · exact Or.inl ⟨tx, List.mem_singleton_self tx, rfl, rfl, rfl⟩
  · exact written_updateWhere _ tx (by intro _; rfl) (by intro _; rfl) (by intro _; rfl)

theorem written_foldl {write : Db → DisplayedTransaction → Db}
    (h : ∀ db tx, Written [tx] db.displayedTransactions (write db tx).displayedTransactions)
    (txs : List DisplayedTransaction) (db : Db) :
    Written txs db.displayedTransactions (txs.foldl write db).displayedTransactions := by
  induction txs generalizing db with
  | nil => exact .refl _
  | cons tx txs ih => exact (h db tx).append (ih (write db tx))

theorem written_writeDisplayed (db : Db) (updated new : List DisplayedTransaction) :
    Written (updated ++ new) db.displayedTransactions
      (db.writeDisplayed updated new).displayedTransactions := by
  refine (written_foldl (fun db tx => ?_) updated db).append
    (written_foldl written_insertDisplayedTransaction new _)
  exact written_updateWhere _ tx (by intro _; rfl) (by intro _; rfl) (by intro _; rfl)

end Written

/-! ## Heights and statuses -/

/-- The status that a transaction mined at a height has at another. -/
def statusAt (required minedHeight currentHeight : Nat) : TransactionDisplayStatus :=
  if required ≤ currentHeight - minedHeight then .confirmed else .unconfirmed

/-- What a transaction shows: nothing of a block if it has not been mined, and otherwise the height
    it was mined at and the confirmations and the status at the height it was last looked at. -/
def DisplayedTransaction.ShownAs (required : Nat) (tx : DisplayedTransaction) :
    Option (Nat × Nat) → Prop
  | none => tx.blockchain.blockHeight = 0 ∧ tx.blockchain.confirmations = 0 ∧ tx.status = .pending
  | some (minedHeight, currentHeight) => tx.blockchain.blockHeight = minedHeight ∧
      tx.blockchain.confirmations = currentHeight - minedHeight ∧
      tx.status = statusAt required minedHeight currentHeight

/-- Every transaction that a block updates or creates shows the block's height. -/
theorem processBlock_shownAs {ext : Externals} {std : StdOrder} {bp : BlockProcessor}
    {now : Timestamp} {block : BlockScanResult} {accountId : AccountId} {c c' : Conn Db}
    {outcome : BlockOutcome}
    (h : bp.processBlock (ext.scanEnv std) now block accountId c = .ok outcome c') :
    Written outcome.displayed c.store.displayedTransactions c'.store.displayedTransactions ∧
      ∀ tx ∈ outcome.displayed,
        tx.ShownAs bp.requiredConfirmations (some (block.height, block.height)) := by
  obtain ⟨key, acc, updated, new, -, hchanges, hcreate, hdisplayed, hstore⟩ :=
    processBlock_creates h
  refine ⟨?_, fun tx htx => ?_⟩
  · rw [hdisplayed, hstore]
    exact written_writeDisplayed _ _ _
  let proc : DisplayedTransactionProcessor := ⟨block.height, bp.requiredConfirmations, key⟩
  obtain ⟨hid, hheight, hhash⟩ := hchanges.isFor
  rw [hdisplayed] at htx
  rcases List.mem_append.mp htx with htx | htx
  · obtain ⟨new', hrun, -⟩ := @createNewUpdatedDisplayTransactions_shows ext std proc acc
      (c.store.currentDisplayTransactions accountId block.height) hchanges.debitValues
    obtain ⟨rfl, rfl⟩ := Prod.mk.inj (Except.ok.inj (hcreate.symm.trans hrun))
    have hlast := (mem_foldl_insertUpdated.mp ((std.values_perm _).mem_iff.mp htx)).mem
    obtain ⟨stored, -, effectiveDate, rfl⟩ := hchanges.mem_updates hlast
    exact ⟨rfl, rfl, rfl⟩
  · have hbuilds : Builds ext proc acc (fun tx =>
        tx.ShownAs bp.requiredConfirmations (some (block.height, block.height))) := ?_
    · exact createNewUpdatedDisplayTransactions_built hbuilds _ _ hcreate tx htx
    refine ⟨?_, ?_, ?_⟩
    · intro change hchange tx htx
      have hmade := coinbaseTransaction_madeFrom ext proc acc change tx htx
      rw [hchanges.creditHeight hchange] at hmade
      exact ⟨hmade.blockHeight.trans hheight, hmade.confirmations, hmade.status⟩
    · intro change hchange txInputs debitValue tx htx
      have hmade := transferTransaction_madeFrom ext proc acc change txInputs debitValue tx htx
      rw [hchanges.creditHeight hchange] at hmade
      exact ⟨hmade.blockHeight.trans hheight, hmade.confirmations, hmade.status⟩
    · intro change hchange tx htx
      have hmade := spentTransaction_madeFrom ext proc acc change tx htx
      rw [(hchanges.minedInBlock change hchange).2] at hmade
      exact ⟨hmade.blockHeight.trans hheight, hmade.confirmations, hmade.status⟩

/-! ## Runs of blocks and confirmation updates -/

/-- The database, and for every displayed transaction that has been mined the height of its block
    and the height at which a block or the monitor last looked at it. -/
structure DisplayStatuses where
  db : Db
  mined : TxId → Option (Nat × Nat)

/-- What happens to the displayed transactions while no block is rolled back. -/
inductive StatusAction where
  /-- A sent transaction is recorded. -/
  | finalize (prepared : PreparedTransaction) (signed : SignedOutputs) (fee : MicroMinotari)
      (now : Timestamp)
  | processBlock (bp : BlockProcessor) (block : BlockScanResult) (accountId : AccountId)
      (now : Timestamp)
  | updateConfirmations (m : TransactionMonitor)

namespace DisplayStatuses

def start : DisplayStatuses := ⟨.empty, fun _ => none⟩

/-- With the entries of these transactions changed. -/
def record (s : DisplayStatuses) (db : Db) (txs : List DisplayedTransaction)
    (entry : Option (Nat × Nat) → Option (Nat × Nat)) : DisplayStatuses where
  db := db
  mined id := if txs.any (·.id == id) then entry (s.mined id) else s.mined id

/-- One call that returns; the wallet requires the same number of confirmations everywhere. -/
def step (ext : Externals) (std : StdOrder) (required : Nat) (s : DisplayStatuses) :
    StatusAction → Option DisplayStatuses
  | .finalize prepared signed fee now =>
    match buildPendingDisplayedTransaction ext prepared signed fee now with
    | .error _ => none
    | .ok tx => some (s.record (s.db.insertDisplayedTransaction tx) [tx] (fun _ => none))
  | .processBlock bp block accountId now =>
    if bp.requiredConfirmations = required then
      (runOk (bp.processBlock (ext.scanEnv std) now block accountId) s.db).map
        (fun (outcome, db) =>
          s.record db outcome.displayed (fun _ => some (block.height, block.height)))
    else none
  | .updateConfirmations m =>
    if m.requiredConfirmations = required then
      (runOk m.updateDisplayedTransactionConfirmations s.db).map (fun (_, db) =>
        s.record db (s.db.getDisplayedTransactionsNeedingConfirmationUpdate m.accountId)
          (Option.map (fun (minedHeight, _) => (minedHeight, m.currentChainHeight))))
    else none

/-- Every displayed transaction that has not been mined is pending, and a mined one has the status
    of its confirmations at the height at which it was last looked at. -/
def ReflectsMining (required : Nat) (s : DisplayStatuses) : Prop :=
  ∀ d ∈ s.db.displayedTransactions.rows,
    d.transaction.status = d.status ∧
      d.status = match s.mined d.id with
        | none => .pending
        | some (minedHeight, currentHeight) => statusAt required minedHeight currentHeight

/-- An update at the height leaves the transaction right: it has been mined, and below the height
    unless it had no confirmations. -/
def MinedBelow (height : Nat) : Option (Nat × Nat) → Prop
  | none => height = 0
  | some (minedHeight, currentHeight) => minedHeight < height ∨ currentHeight ≤ minedHeight

/-- A confirmation update meets no pending or unconfirmed transaction that has had confirmations and
    is mined at or above the height of the update, and above height 0 none that has not been
    mined. -/
def UpdatesAboveMined (s : DisplayStatuses) : StatusAction → Prop
  | .updateConfirmations m => ∀ d ∈ s.db.displayedTransactions.rows, d.accountId = m.accountId →
      d.status = .pending ∨ d.status = .unconfirmed →
        MinedBelow m.currentChainHeight (s.mined d.id)
  | _ => True

instance (height : Nat) (entry : Option (Nat × Nat)) : Decidable (MinedBelow height entry) := by
  unfold MinedBelow
  split <;> infer_instance

instance (s : DisplayStatuses) (a : StatusAction) : Decidable (UpdatesAboveMined s a) := by
  unfold UpdatesAboveMined
  split <;> infer_instance

instance (required : Nat) (s : DisplayStatuses) : Decidable (ReflectsMining required s) := by
  unfold ReflectsMining
  infer_instance

/-- Every row has its transaction, which shows what is recorded of it. -/
def Tracked (required : Nat) (s : DisplayStatuses) : Prop :=
  ∀ d ∈ s.db.displayedTransactions.rows,
    d.Holds d.transaction ∧ d.transaction.ShownAs required (s.mined d.id)

variable {ext : Externals} {std : StdOrder} {required : Nat} {s s' : DisplayStatuses}

theorem Tracked.reflectsMining (h : Tracked required s) : ReflectsMining required s := by
  intro d hd
  obtain ⟨⟨-, hstatus, -⟩, hshown⟩ := h d hd
  refine ⟨hstatus.symm, ?_⟩
  rw [hstatus]
  cases hmined : s.mined d.id with
  | none =>
      rw [hmined] at hshown
      exact hshown.2.2
  | some entry =>
      rw [hmined] at hshown
      exact hshown.2.2

/-- Writing transactions that show their new entries; what is not written shows its new entry as
    well. -/
theorem Tracked.record (h : Tracked required s) {db : Db} {written txs : List DisplayedTransaction}
    {entry : Option (Nat × Nat) → Option (Nat × Nat)}
    (hwritten : Written written s.db.displayedTransactions db.displayedTransactions)
    (hsub : ∀ tx ∈ written, ∃ stored ∈ txs, stored.id = tx.id)
    (hshown : ∀ tx ∈ written, tx.ShownAs required (entry (s.mined tx.id)))
    (hrest : ∀ d ∈ s.db.displayedTransactions.rows, (∀ tx ∈ written, d.id ≠ tx.id) →
      (∃ tx ∈ txs, tx.id = d.id) → d.transaction.ShownAs required (entry (s.mined d.id))) :
    Tracked required (s.record db txs entry) := by
  intro d hd
  have hmined : ∀ id, (s.record db txs entry).mined id =
      if txs.any (·.id == id) then entry (s.mined id) else s.mined id := fun _ => rfl
  rcases hwritten d hd with ⟨tx, htx, hid, hstatus, rfl⟩ | ⟨hd, hother⟩
  · refine ⟨⟨hid, hstatus, rfl⟩, ?_⟩
    obtain ⟨stored, hstored, heq⟩ := hsub _ htx
    rw [hmined, if_pos (List.any_eq_true.mpr ⟨stored, hstored, by simp [heq, hid]⟩), hid]
    exact hshown _ htx
  · obtain ⟨hholds, hbefore⟩ := h d hd
    refine ⟨hholds, ?_⟩
    rw [hmined]
    split
    · next hany =>
        obtain ⟨tx, htx, heq⟩ := List.any_eq_true.mp hany
        exact hrest d hd hother ⟨tx, htx, beq_iff_eq.mp heq⟩
    · exact hbefore

/-- The same when all the entries that change are of transactions that are written. -/
theorem Tracked.recordWritten (h : Tracked required s) {db : Db} {txs : List DisplayedTransaction}
    {entry : Option (Nat × Nat) → Option (Nat × Nat)}
    (hwritten : Written txs s.db.displayedTransactions db.displayedTransactions)
    (hshown : ∀ tx ∈ txs, tx.ShownAs required (entry (s.mined tx.id))) :
    Tracked required (s.record db txs entry) :=
  h.record hwritten (fun tx htx => ⟨tx, htx, rfl⟩) hshown
    (fun _ _ hother ⟨tx, htx, heq⟩ => absurd heq.symm (hother tx htx))

theorem pending_shownAs {prepared : PreparedTransaction} {signed : SignedOutputs}
    {fee : MicroMinotari} {now : Timestamp} :
    Yields (buildPendingDisplayedTransaction ext prepared signed fee now)
      (fun tx => tx.ShownAs required none) := by
  unfold buildPendingDisplayedTransaction DisplayedTransactionBuilder.creditsAndDebits
  dsimp only
  split <;> exact .ok ⟨rfl, rfl, rfl⟩

end DisplayStatuses

/-- A confirmation update writes the transactions it reads whose confirmations have changed. -/
theorem updateDisplayedTransactionConfirmations_written (m : TransactionMonitor) (db : Db) :
    Ensures (fun db' => db' = db) m.updateDisplayedTransactionConfirmations (fun written db' =>
      Written written db.displayedTransactions db'.displayedTransactions ∧
        ∀ tx, tx ∈ written ↔
          ∃ stored ∈ db.getDisplayedTransactionsNeedingConfirmationUpdate m.accountId,
            tx = m.withConfirmations stored ∧
              tx.blockchain.confirmations ≠ stored.blockchain.confirmations) := by
  unfold TransactionMonitor.updateDisplayedTransactionConfirmations
  refine Ensures.bind (Q := fun txs db' => db' = db ∧
    txs = db.getDisplayedTransactionsNeedingConfirmationUpdate m.accountId)
    (Ensures.query (fun db' hsame => ⟨hsame, hsame ▸ rfl⟩)) (fun txs => ?_)
  -- the transactions read so far, of which those that changed are written
  refine (Ensures.foldlM (I := fun rest written (db' : Db) =>
    ∃ done, done ++ rest = db.getDisplayedTransactionsNeedingConfirmationUpdate m.accountId ∧
      Written written db.displayedTransactions db'.displayedTransactions ∧
      ∀ tx, tx ∈ written ↔ ∃ stored ∈ done, tx = m.withConfirmations stored ∧
        tx.blockchain.confirmations ≠ stored.blockchain.confirmations) txs []
    (fun stored rest written => Ensures.ite (fun hsame => ?_) (fun hchanged => ?_))).mono
    (fun db' h => ⟨[], h.2, h.1 ▸ .refl _, fun tx => by simp⟩) (fun written db' h => ?_)
  · refine Ensures.pure (fun db' h => ?_)
    obtain ⟨done, hdone, hwritten, hmem⟩ := h
    refine ⟨done ++ [stored], by simpa using hdone, hwritten, fun tx => ?_⟩
    rw [hmem]
    constructor
    · rintro ⟨stored', hstored', h⟩
      exact ⟨stored', List.mem_append_left _ hstored', h⟩
    · rintro ⟨stored', hstored', rfl, hne⟩
      rcases List.mem_append.mp hstored' with hstored' | hstored'
      · exact ⟨stored', hstored', rfl, hne⟩
      · rw [List.mem_singleton.mp hstored'] at hne
        exact absurd hsame hne
  · refine Ensures.bind (Ensures.update (fun db' h => ?_)) (fun _ => Ensures.pure (fun _ h => h))
    obtain ⟨done, hdone, hwritten, hmem⟩ := h
    refine ⟨done ++ [stored], by simpa using hdone, hwritten.append ?_, fun tx => ?_⟩
    · exact written_updateWhere _ _ (by intro _; rfl) (by intro _; rfl) (by intro _; rfl)
    · rw [List.mem_append, hmem, List.mem_singleton]
      constructor
      · rintro (⟨stored', hstored', h⟩ | rfl)
        · exact ⟨stored', List.mem_append_left _ hstored', h⟩
        · exact ⟨stored, by simp, rfl, hchanged⟩
      · rintro ⟨stored', hstored', rfl, hne⟩
        rcases List.mem_append.mp hstored' with hstored' | hstored'
        · exact Or.inl ⟨stored', hstored', rfl, hne⟩
        · exact Or.inr (by rw [List.mem_singleton.mp hstored'])
  · obtain ⟨done, hdone, hwritten, hmem⟩ := h
    rw [List.append_nil] at hdone
    exact ⟨hwritten, fun tx => hdone ▸ hmem tx⟩

theorem mem_needingConfirmationUpdate {db : Db} {accountId : AccountId}
    {tx : DisplayedTransaction} :
    tx ∈ db.getDisplayedTransactionsNeedingConfirmationUpdate accountId ↔
      ∃ d ∈ db.displayedTransactions.rows, d.accountId = accountId ∧
        (d.status = .pending ∨ d.status = .unconfirmed) ∧ d.transaction = tx := by
  simp [Db.getDisplayedTransactionsNeedingConfirmationUpdate, and_assoc]

namespace DisplayStatuses

variable {ext : Externals} {std : StdOrder} {required : Nat} {s s' : DisplayStatuses}

/-- What a confirmation update leaves of a transaction that it reads. -/
theorem withConfirmations_shownAs {m : TransactionMonitor} {tx : DisplayedTransaction}
    {entry : Option (Nat × Nat)} (hm : m.requiredConfirmations = required)
    (h : tx.ShownAs required entry) (hstatus : tx.status = .pending ∨ tx.status = .unconfirmed)
    (hbelow : MinedBelow m.currentChainHeight entry) :
    (if (m.withConfirmations tx).blockchain.confirmations = tx.blockchain.confirmations then tx
      else m.withConfirmations tx).ShownAs required
        (entry.map (fun (minedHeight, _) => (minedHeight, m.currentChainHeight))) := by
  have hnew : (m.withConfirmations tx).blockchain.confirmations =
      m.currentChainHeight - tx.blockchain.blockHeight := rfl
  cases entry with
  | none =>
      obtain ⟨hheight, hconfirmations, hpending⟩ := h
      have hzero : m.currentChainHeight = 0 := hbelow
      rw [if_pos (by rw [hnew, hzero, Nat.zero_sub, hconfirmations])]
      exact ⟨hheight, hconfirmations, hpending⟩
  | some entry =>
      obtain ⟨hheight, hconfirmations, hshown⟩ := h
      split
      · next hsame =>
          have hsub : m.currentChainHeight - entry.1 = entry.2 - entry.1 := by
            rw [← hconfirmations, ← hsame, hnew, hheight]
          refine ⟨hheight, hconfirmations.trans hsub.symm, hshown.trans ?_⟩
          unfold statusAt
          rw [hsub]
      · next hchanged =>
          refine ⟨hheight, by rw [hnew, hheight], ?_⟩
          show (if tx.status = .pending ∨ tx.status = .unconfirmed then _ else _) = _
          rw [if_pos hstatus, hheight]
          unfold TransactionMonitor.determineStatusFromConfirmations statusAt
          rw [hm]
          split
          · rfl
          · -- with no confirmations now there were some before, above the height of the block
            have hpositive : 0 < m.currentChainHeight - entry.1 := by
              have hmined : entry.1 < m.currentChainHeight ∨ entry.2 ≤ entry.1 := hbelow
              rw [hnew, hheight, hconfirmations] at hchanged
              omega
            rw [if_pos hpositive]

/-- One call. -/
theorem Tracked.step {a : StatusAction} (h : Tracked required s) (hmeets : UpdatesAboveMined s a)
    (hstep : DisplayStatuses.step ext std required s a = some s') : Tracked required s' := by
  cases a with
  | finalize prepared signed fee now =>
      simp only [DisplayStatuses.step] at hstep
      split at hstep
      · cases hstep
      · next tx hbuild =>
          cases hstep
          refine h.recordWritten (written_insertDisplayedTransaction s.db tx)
            (fun tx' htx' => ?_)
          rw [List.mem_singleton.mp htx']
          exact pending_shownAs tx hbuild
  | processBlock bp block accountId now =>
      simp only [DisplayStatuses.step, Option.ite_none_right_eq_some] at hstep
      obtain ⟨hrequired, hstep⟩ := hstep
      obtain ⟨⟨outcome, db⟩, hrun, rfl⟩ := Option.map_eq_some_iff.mp hstep
      obtain ⟨c, hok, rfl⟩ := runOk_eq_some.mp hrun
      obtain ⟨hwritten, hshown⟩ := processBlock_shownAs hok
      exact h.recordWritten hwritten (fun tx htx => hrequired ▸ hshown tx htx)
  | updateConfirmations m =>
      simp only [DisplayStatuses.step, Option.ite_none_right_eq_some] at hstep
      obtain ⟨hrequired, hstep⟩ := hstep
      obtain ⟨⟨written, db⟩, hrun, rfl⟩ := Option.map_eq_some_iff.mp hstep
      obtain ⟨hwritten, hmem⟩ :=
        (updateDisplayedTransactionConfirmations_written m s.db).of_runOk rfl hrun
      -- whatever the update reads shows its entry afterwards, written or not
      have hread : ∀ d ∈ s.db.displayedTransactions.rows, d.accountId = m.accountId →
          (d.status = .pending ∨ d.status = .unconfirmed) →
          (if (m.withConfirmations d.transaction).blockchain.confirmations =
              d.transaction.blockchain.confirmations then d.transaction
            else m.withConfirmations d.transaction).ShownAs required ((s.mined d.id).map
              (fun (minedHeight, _) => (minedHeight, m.currentChainHeight))) := by
        intro d hd haccount hstatus
        obtain ⟨⟨-, hdstatus, -⟩, hshown⟩ := h d hd
        exact withConfirmations_shownAs hrequired hshown (hdstatus ▸ hstatus)
          (hmeets d hd haccount hstatus)
      refine h.record hwritten (fun tx htx => ?_) (fun tx htx => ?_) (fun d hd hother hmem' => ?_)
      · obtain ⟨stored, hstored, rfl, -⟩ := (hmem tx).mp htx
        exact ⟨stored, hstored, rfl⟩
      · obtain ⟨stored, hstored, rfl, hne⟩ := (hmem tx).mp htx
        obtain ⟨d, hd, haccount, hstatus, rfl⟩ := mem_needingConfirmationUpdate.mp hstored
        have hshown := hread d hd haccount hstatus
        rw [if_neg hne, (h d hd).1.1] at hshown
        exact hshown
      · obtain ⟨tx, htx, hid⟩ := hmem'
        obtain ⟨d', hd', haccount, hstatus, rfl⟩ := mem_needingConfirmationUpdate.mp htx
        obtain rfl := s.db.displayedTransactions.eq_of_key_eq hd' hd
          ((h d' hd').1.1.trans hid)
        have hshown := hread d' hd haccount hstatus
        have hsame : (m.withConfirmations d'.transaction).blockchain.confirmations =
            d'.transaction.blockchain.confirmations := by
          by_contra hne
          exact hother _ ((hmem _).mpr ⟨d'.transaction, htx, rfl, hne⟩) (h d' hd).1.1
        rw [if_pos hsame] at hshown
        exact hshown

/-- In every run whose confirmation updates meet no transaction that is not mined below their
    height, the status of every displayed transaction reflects whether and where it is mined. -/
theorem reflectsMining_of_run (ext : Externals) (std : StdOrder) (required : Nat)
    (actions : List StatusAction)
    (hmeets : Along (DisplayStatuses.step ext std required) UpdatesAboveMined start actions) :
    Always (DisplayStatuses.step ext std required) (ReflectsMining required) start actions :=
  always_of_along (I := Tracked required) (fun _ _ _ h hg hstep => h.step hg hstep)
    (fun _ h => h.reflectsMining) (fun d hd => by cases hd) hmeets

/-- The payment is recorded between two confirmation updates of the output it spends, and mined
    before the next. -/
def minedBeforeUpdate : List StatusAction :=
  [.processBlock oneAccount fundingBlock 1 0, .updateConfirmations ⟨1, 11, 3, none⟩,
    .finalize payment signedPayment 5 1100, .processBlock oneAccount paymentBlock 1 0,
    .updateConfirmations ⟨1, 14, 3, none⟩]

theorem minedBeforeUpdate_reflectsMining :
    Always (DisplayStatuses.step plainEnv.toExternals .stable 3) (ReflectsMining 3) start
        minedBeforeUpdate ∧
      (Transition.run (DisplayStatuses.step plainEnv.toExternals .stable 3) start
        minedBeforeUpdate).isSome :=
  ⟨reflectsMining_of_run plainEnv.toExternals .stable 3 minedBeforeUpdate (by decide +kernel),
    by decide +kernel⟩

/-- An update at height 3 finds three confirmations of a payment that no block has mined. -/
theorem pending_confirmed_by_update :
    ¬∀ (ext : Externals) (std : StdOrder) (required : Nat) (actions : List StatusAction),
      1 ≤ required →
        Always (DisplayStatuses.step ext std required) (ReflectsMining required) start actions := by
  intro hall
  have hfails : ¬Always (DisplayStatuses.step plainEnv.toExternals .stable 3) (ReflectsMining 3)
      start [.finalize payment signedPayment 5 1100, .updateConfirmations ⟨1, 3, 3, none⟩] := by
    decide +kernel
  exact hfails (hall plainEnv.toExternals .stable 3 _ (by decide))

/-- A block at height 10 shows the transaction unconfirmed; after an update at height 12 the next at
    its own height shows it pending. -/
example : ¬Always (DisplayStatuses.step plainEnv.toExternals .stable 3) (ReflectsMining 3) start
    [.processBlock oneAccount fundingBlock 1 0, .updateConfirmations ⟨1, 12, 3, none⟩,
      .updateConfirmations ⟨1, 10, 3, none⟩] := by
  decide +kernel

end DisplayStatuses

end MinotariWallet
