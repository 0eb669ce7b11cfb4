import MinotariWallet.Displayed.Columns
import MinotariWallet.Displayed.Status

set_option autoImplicit false

/-! # A reorganized transaction that is mined again

A block is matched against the rows that are stored at or above its height and against the pending
ones. A reorganized row keeps the height it was mined at: a block above that height does not find
it, and shows what the row has shown in a new transaction. -/

namespace MinotariWallet

open Sql Exec Transition DisplayedTransactionProcessor

/-! ## Histories -/

/-- What happens to the displayed transactions of a wallet. -/
inductive RemineAction where
  /-- A sent transaction is recorded. -/
  | finalize (prepared : PreparedTransaction) (signed : SignedOutputs) (fee : MicroMinotari)
      (now : Timestamp)
  | processBlock (bp : BlockProcessor) (block : BlockScanResult) (accountId : AccountId)
      (now : Timestamp)
  | rollbackFromHeight (accountId : AccountId) (height : Nat)
      (webhookConfig : Option WebhookTriggerConfig) (now : Timestamp)
  /-- Any other writer: the updates and rejections of the monitor, and what leaves the displayed
      transactions alone. -/
  | write (a : HistoryAction)

/-- The database after one call that returns. -/
def remineStep (ext : Externals) (std : StdOrder) (db : Db) : RemineAction → Option Db
  | .finalize prepared signed fee now =>
    match buildPendingDisplayedTransaction ext prepared signed fee now with
    | .error _ => none
    | .ok tx => some (db.insertDisplayedTransaction tx)
  | .processBlock bp block accountId now =>
    (runOk (bp.processBlock (ext.scanEnv std) now block accountId) db).map (·.2)
  | .rollbackFromHeight accountId height webhookConfig now =>
    (runOk (rollbackFromHeight accountId height webhookConfig now) db).map (·.2)
  | .write a => historyStep db a

section Block

variable (bp : BlockProcessor) (accountId : AccountId) (block : BlockScanResult)

/-- A reorganized row of the account of which the block has an output or spends an input. -/
def DisplayedTransactionRow.ReminedBy (d : DisplayedTransactionRow) : Prop :=
  d.accountId = accountId ∧ d.status = .reorganized ∧
    ((∃ w ∈ ownOutputs bp accountId block.walletOutputs,
        d.transaction.hasOutput w.2.1.outputHash = true) ∨
      ∃ input ∈ block.inputs, d.transaction.hasInput input = true)

/-- The row is mined at the block's height, with what it has shown before. -/
def MinedAgain (d : DisplayedTransactionRow) (after : Table DisplayedTransactionRow) : Prop :=
  ∃ d' ∈ after.rows, d'.id = d.id ∧ d'.accountId = d.accountId ∧
    d'.transaction.details = d.transaction.details ∧
    d'.blockHeight = asI64 block.height ∧ d'.transaction.blockchain.blockHeight = block.height ∧
    d'.status = statusAt bp.requiredConfirmations block.height block.height ∧
    d'.transaction.status = d'.status

/-- The other row has none of the row's hashes that it has not had before. -/
def GainsNone (hashes : DisplayedTransaction → List FixedHash)
    (before : Table DisplayedTransactionRow) (d d' : DisplayedTransactionRow) : Prop :=
  ∀ hash ∈ hashes d.transaction, hash ∈ hashes d'.transaction →
    ∃ old ∈ before.rows, old.id = d'.id ∧ hash ∈ hashes old.transaction

/-- No other row of the account has got an output or an input of the row. -/
def NotShared (d : DisplayedTransactionRow) (before after : Table DisplayedTransactionRow) : Prop :=
  ∀ d' ∈ after.rows, d'.accountId = d.accountId → d'.id ≠ d.id →
    GainsNone (·.outputHashes) before d d' ∧ GainsNone (·.inputHashes) before d d'

/-- No output or input of the block that is new to the stored transactions gives this id. -/
def NoneNewUnder (ext : Externals) (db : Db) (id : TxId) : Prop :=
  let current := db.currentDisplayTransactions accountId block.height
  match bp.accountViewKey accountId with
  | .error _ => True
  | .ok key =>
    (∀ w ∈ ownOutputs bp accountId block.walletOutputs,
      ext.newDeterministic key w.2.1.outputHash = id →
        current.any (·.hasOutput w.2.1.outputHash) = true) ∧
    ∀ output ∈ block.inputs.filterMap (spentOutput? bp accountId db block.walletOutputs),
      ext.newDeterministic key output.outputHash = id →
        current.any (·.hasInput output.outputHash) = true

end Block

/-- What the step shows of every reorganized row that it mines again. -/
def KeepsIdentity (ext : Externals) (std : StdOrder) (db : Db) : RemineAction → Prop
  | .processBlock bp block accountId now =>
    match remineStep ext std db (.processBlock bp block accountId now) with
    | none => True
    | some db' => ∀ d ∈ db.displayedTransactions.rows, d.ReminedBy bp accountId block →
      MinedAgain bp block d db'.displayedTransactions ∧
        NotShared d db.displayedTransactions db'.displayedTransactions
  | _ => True

/-- The block finds every reorganized row that it mines again, before any other row with the same
    output or input, and makes no new transaction under its id. -/
def FindsReorganized (ext : Externals) (db : Db) : RemineAction → Prop
  | .processBlock bp block accountId _ =>
    ∀ d ∈ db.displayedTransactions.rows, d.ReminedBy bp accountId block →
      d.transaction ∈ storedUpdated bp accountId block db ∧
        NoneNewUnder bp accountId block ext db d.id
  | _ => True

/-! ## Ids -/

variable {ext : Externals} {std : StdOrder} {db db' : Db} {tx : DisplayedTransaction}

theorem IdsAgree.of_written {txs : List DisplayedTransaction} (h : IdsAgree db)
    (hwritten : Written txs db.displayedTransactions db'.displayedTransactions) : IdsAgree db' := by
  intro d hd
  rcases hwritten d hd with ⟨tx, -, hid, -, rfl⟩ | ⟨hd, -⟩
  · exact hid
  · exact h d hd

theorem IdsAgree.setStatus {id : TxId} (h : IdsAgree db) (hid : id = tx.id) :
    IdsAgree (db.setDisplayedTransactionStatus id tx) := by
  subst hid
  exact h.of_written
    (written_updateWhere _ tx (by intro _; rfl) (by intro _; rfl) (by intro _; rfl))

/-- Every writer keeps the rows under the ids of their transactions. -/
theorem historyStep_idsAgree (db : Db) (a : HistoryAction) (db' : Db) (h : IdsAgree db)
    (hstep : historyStep db a = some db') : IdsAgree db' := by
  cases a with
  | insertDisplayedTransaction tx =>
      cases hstep
      exact h.of_written (written_insertDisplayedTransaction db tx)
  | updateDisplayedTransactionMined proc stored height effectiveDate =>
      simp only [historyStep, Option.ite_none_right_eq_some, Option.some.injEq] at hstep
      obtain ⟨-, rfl⟩ := hstep
      exact h.of_written
        (written_updateWhere _ _ (by intro _; rfl) (by intro _; rfl) (by intro _; rfl))
  | updateDisplayedTransactionConfirmations m budget =>
      cases hstep
      refine after_query_bind h (fun b => ?_)
      refine Stays.foldlM_mem (I := IdsAgree) (fun updated tx _ => Stays.ite Stays.pure
        (Stays.bind (Stays.update (fun db hdb => ?_)) (fun _ => Stays.pure))) ⟨db, b⟩ h
      exact hdb.setStatus rfl
  | markDisplayedTransactionRejected txId budget =>
      cases hstep
      refine after_query_bind h (fun b => ?_)
      cases hget : db.displayedTransactions.get? txId with
      | none => exact h
      | some row =>
          obtain ⟨hrow, hid⟩ := Table.get?_eq_some.mp hget
          refine Stays.bind (I := IdsAgree) (Stays.update (fun db' hdb' => ?_))
            (fun _ => Stays.pure) ⟨db, b⟩ h
          exact hdb'.setStatus (hid.symm.trans (h row hrow))
  | markDisplayedTransactionsReorganized accountId fromHeight budget =>
      cases hstep
      refine after_query_bind h (fun b => ?_)
      refine Stays.foldlM_mem (I := IdsAgree) (fun updated row hrow => Stays.bind
        (Stays.update (fun db' hdb' => ?_)) (fun _ => Stays.pure)) ⟨db, b⟩ h
      exact hdb'.setStatus (h row (List.mem_filter.mp hrow).1)
  | others db₁ =>
      simp only [historyStep, Option.ite_none_right_eq_some, Option.some.injEq] at hstep
      obtain ⟨hrows, rfl⟩ := hstep
      exact fun d hd => h d (hrows ▸ hd)

theorem remineStep_idsAgree (db : Db) (a : RemineAction) (db' : Db) (h : IdsAgree db)
    (hstep : remineStep ext std db a = some db') : IdsAgree db' := by
  cases a with
  | finalize prepared signed fee now =>
      simp only [remineStep] at hstep
      split at hstep
      · cases hstep
      · cases hstep
        exact h.of_written (written_insertDisplayedTransaction db _)
  | processBlock bp block accountId now =>
      obtain ⟨⟨outcome, db₁⟩, hrun, rfl⟩ := Option.map_eq_some_iff.mp hstep
      obtain ⟨c, hok, rfl⟩ := runOk_eq_some.mp hrun
      exact h.of_written (processBlock_shownAs hok).1
  | rollbackFromHeight accountId height webhookConfig now =>
      obtain ⟨⟨info, db₁⟩, hrun, rfl⟩ := Option.map_eq_some_iff.mp hstep
      obtain ⟨c, hok, rfl⟩ := runOk_eq_some.mp hrun
      obtain ⟨actions, hactions⟩ := rollbackFromHeight_history hok
      exact inv_of_steps historyStep_idsAgree h hactions
  | write a => exact historyStep_idsAgree db a db' h hstep

/-! ## The rows that a block writes -/

/-- The `UPDATE`s of a block set the height of their rows. -/
theorem updated_row {height : Nat} {updated : List DisplayedTransaction}
    (hheight : ∀ tx ∈ updated, tx.blockchain.blockHeight = height) {d : DisplayedTransactionRow}
    (hd : d ∈ db.displayedTransactions.rows) :
    ∃ d' ∈ (updated.foldl Db.updateDisplayedTransactionMined db).displayedTransactions.rows,
      d'.id = d.id ∧ d'.accountId = d.accountId ∧
        d'.blockHeight = if updated.any (·.id == d.id) then asI64 height else d.blockHeight := by
  induction updated generalizing db d with
  | nil => exact ⟨d, hd, rfl, rfl, rfl⟩
  | cons tx updated ih =>
      obtain ⟨htx, hheight⟩ := List.forall_mem_cons.mp hheight
      let d₁ : DisplayedTransactionRow := if d.id == tx.id then { d with
        status := tx.status
        blockHeight := asI64 tx.blockchain.blockHeight
        transaction := tx
        payref := some tx.details.sentPayrefs } else d
      have hd₁ : d₁ ∈ (db.updateDisplayedTransactionMined tx).displayedTransactions.rows :=
        (Table.mem_updateWhere (by intro _; rfl)).mpr ⟨d, hd, rfl⟩
      have hid : d₁.id = d.id := by simp only [d₁]; split <;> rfl
      have haccount : d₁.accountId = d.accountId := by simp only [d₁]; split <;> rfl
      obtain ⟨d', hd', hid', haccount', hcolumn⟩ := ih hheight hd₁
      refine ⟨d', hd', hid'.trans hid, haccount'.trans haccount, hcolumn.trans ?_⟩
      rw [hid, List.any_cons]
      by_cases hwritten : d.id = tx.id
      · simp [d₁, hwritten, htx]
      · simp [d₁, hwritten, Ne.symm hwritten]

/-- An insert leaves the height of a row as it is. -/
theorem inserted_row (new : List DisplayedTransaction) {d : DisplayedTransactionRow}
    (hd : d ∈ db.displayedTransactions.rows) :
    ∃ d' ∈ (new.foldl Db.insertDisplayedTransaction db).displayedTransactions.rows,
      d'.id = d.id ∧ d'.accountId = d.accountId ∧ d'.blockHeight = d.blockHeight := by
  induction new generalizing db d with
  | nil => exact ⟨d, hd, rfl, rfl, rfl⟩
  | cons tx new ih =>
      obtain ⟨d₁, hd₁, hid, haccount, hcolumn⟩ :
          ∃ d₁ ∈ (db.insertDisplayedTransaction tx).displayedTransactions.rows,
            d₁.id = d.id ∧ d₁.accountId = d.accountId ∧ d₁.blockHeight = d.blockHeight := by
        unfold Db.insertDisplayedTransaction
        split
        · next table hinsert =>
            exact ⟨d, (Table.mem_insert? hinsert).mpr (Or.inl hd), rfl, rfl, rfl⟩
        · refine ⟨_, (Table.mem_updateWhere (by intro _; rfl)).mpr ⟨d, hd, rfl⟩, ?_⟩
          split <;> exact ⟨rfl, rfl, rfl⟩
      obtain ⟨d', hd', hid', haccount', hcolumn'⟩ := ih hd₁
      exact ⟨d', hd', hid'.trans hid, haccount'.trans haccount, hcolumn'.trans hcolumn⟩

/-- The hash that gives a new transaction its id is that of an output or of an input it shows. -/
theorem new_id {proc : DisplayedTransactionProcessor} {acc : BlockEventAccumulator}
    {current : List DisplayedTransaction}
    {r : List DisplayedTransaction × List DisplayedTransaction}
    (h : createNewUpdatedDisplayTransactions ext std proc acc current = .ok r) :
    ∀ tx ∈ r.2, ∃ hash, ext.newDeterministic proc.viewKey hash = tx.id ∧
      (hash ∈ tx.outputHashes ∨ hash ∈ tx.inputHashes) := by
  have hbuilds : Builds ext proc acc (fun tx => ∃ hash,
      ext.newDeterministic proc.viewKey hash = tx.id ∧
        (hash ∈ tx.outputHashes ∨ hash ∈ tx.inputHashes)) := ?_
  · exact createNewUpdatedDisplayTransactions_built hbuilds current r h
  refine ⟨fun change _ => ?_, fun change _ txInputs debitValue => ?_, fun change _ => ?_⟩
  · obtain ⟨tx, hbuild, hshows⟩ := coinbaseTransaction_shows ext proc acc change
    have hmade := coinbaseTransaction_madeFrom ext proc acc change tx hbuild
    rw [hbuild]
    exact .ok ⟨_, hmade.id.symm, Or.inl (by simp [hshows.outputs])⟩
  · unfold transferTransaction DisplayedTransactionBuilder.creditsAndDebits
    dsimp only
    split <;> exact .ok ⟨_, rfl, Or.inl List.mem_cons_self⟩
  · obtain ⟨tx, hbuild, hshows⟩ := spentTransaction_shows ext proc acc change
    have hmade := spentTransaction_madeFrom ext proc acc change tx hbuild
    rw [hbuild]
    exact .ok ⟨_, hmade.id.symm, Or.inr (by simp [hshows.inputs])⟩

section New

variable {bp : BlockProcessor} {accountId : AccountId} {block : BlockScanResult}
  {acc : BlockEventAccumulator} {new current : List DisplayedTransaction}

/-- The outputs of a new transaction are outputs of the block that no stored transaction has. -/
theorem new_output
    (hchanges : BlockChanges bp accountId block db block.walletOutputs block.inputs acc)
    (hshows : ShowsAll ext new (newCredits current acc.creditBalanceChanges)
      (newDebits current acc.debitBalanceChanges))
    (htx : tx ∈ new) {hash : FixedHash} (hhash : hash ∈ tx.outputHashes) :
    (∃ w ∈ ownOutputs bp accountId block.walletOutputs, w.2.1.outputHash = hash) ∧
      current.any (·.hasOutput hash) = false := by
  have hmem := hshows.outputs.subset (List.mem_flatMap.mpr ⟨tx, htx, hhash⟩)
  obtain ⟨c, hc, rfl⟩ := List.mem_map.mp hmem
  obtain ⟨hc, hnew⟩ := List.mem_filter.mp hc
  have hdetected := List.mem_map_of_mem (f := (·.2)) hc
  rw [hchanges.credits] at hdetected
  obtain ⟨w, hw, heq⟩ := List.mem_map.mp hdetected
  exact ⟨⟨w, hw, by rw [← heq]⟩, by simpa using hnew⟩

/-- The inputs of a new transaction are spent by the block and no stored transaction has them. -/
theorem new_input
    (hchanges : BlockChanges bp accountId block db block.walletOutputs block.inputs acc)
    (hshows : ShowsAll ext new (newCredits current acc.creditBalanceChanges)
      (newDebits current acc.debitBalanceChanges))
    (htx : tx ∈ new) {hash : FixedHash} (hhash : hash ∈ tx.inputHashes) :
    (∃ output ∈ block.inputs.filterMap (spentOutput? bp accountId db block.walletOutputs),
        output.outputHash = hash) ∧
      current.any (·.hasInput hash) = false := by
  have hmem := hshows.inputs.subset (List.mem_flatMap.mpr ⟨tx, htx, hhash⟩)
  obtain ⟨d, hd, rfl⟩ := List.mem_map.mp hmem
  obtain ⟨hd, hnew⟩ := List.mem_filter.mp hd
  have hspent := List.mem_map_of_mem (f := (·.2.output)) hd
  rw [hchanges.debits] at hspent
  exact ⟨⟨_, hspent, rfl⟩, by simpa using hnew⟩

end New

/-- A stored transaction that the block updates is one that the block is matched against. -/
theorem mem_current_of_storedUpdated {bp : BlockProcessor} {accountId : AccountId}
    {block : BlockScanResult} (h : tx ∈ storedUpdated bp accountId block db) :
    tx ∈ db.currentDisplayTransactions accountId block.height := by
  rcases List.mem_append.mp h with h | h
  · obtain ⟨w, -, hw⟩ := List.mem_filterMap.mp h
    exact List.mem_of_find?_eq_some hw
  · obtain ⟨output, -, houtput⟩ := List.mem_filterMap.mp h
    exact List.mem_of_find?_eq_some houtput

/-- Of the updates of one id one is the last. -/
theorem exists_lastOfId {txs : List DisplayedTransaction} (htx : tx ∈ txs) :
    ∃ last, LastOfId txs last ∧ last.id = tx.id := by
  induction txs using List.reverseRecOn with
  | nil => cases htx
  | append_singleton txs last ih =>
      by_cases hid : last.id = tx.id
      · exact ⟨last, lastOfId_concat.mpr (Or.inl rfl), hid⟩
      · have hbefore : tx ∈ txs := (List.mem_append.mp htx).resolve_right (fun hlast =>
          hid (congrArg (·.id) (List.mem_singleton.mp hlast)).symm)
        obtain ⟨tx', hlast, heq⟩ := ih hbefore
        exact ⟨tx', lastOfId_concat.mpr (Or.inr ⟨hlast, heq ▸ hid⟩), heq⟩

/-- A reorganized row that the block finds is mined again. -/
theorem processBlock_minesAgain {bp : BlockProcessor} {now : Timestamp} {block : BlockScanResult}
    {accountId : AccountId} {c c' : Conn Db} {outcome : BlockOutcome} {d : DisplayedTransactionRow}
    (hids : IdsAgree c.store) (hd : d ∈ c.store.displayedTransactions.rows)
    (hstored : d.transaction ∈ storedUpdated bp accountId block c.store)
    (hnone : NoneNewUnder bp accountId block ext c.store d.id)
    (h : bp.processBlock (ext.scanEnv std) now block accountId c = .ok outcome c') :
    MinedAgain bp block d c'.store.displayedTransactions ∧
      NotShared d c.store.displayedTransactions c'.store.displayedTransactions := by
  obtain ⟨hwritten, hshown⟩ := processBlock_shownAs h
  obtain ⟨key, acc, updated, new, hkey, hchanges, hcreate, hdisplayed, hstore⟩ :=
    processBlock_creates h
  let proc : DisplayedTransactionProcessor := ⟨block.height, bp.requiredConfirmations, key⟩
  let current := c.store.currentDisplayTransactions accountId block.height
  obtain ⟨new', hrun, hshows⟩ := @createNewUpdatedDisplayTransactions_shows ext std proc acc
    current hchanges.debitValues
  obtain ⟨rfl, rfl⟩ := Prod.mk.inj (Except.ok.inj (hcreate.symm.trans hrun))
  have hcurrent : d.transaction ∈ current := mem_current_of_storedUpdated hstored
  have hmem : ∀ tx, tx ∈ std.intoValues ((updates proc acc current).foldl insertUpdated []) ↔
      LastOfId (updates proc acc current) tx :=
    fun tx => (std.values_perm _).mem_iff.trans mem_foldl_insertUpdated
  -- an update keeps the outputs and the inputs of the row that it is made of
  have hupdate : ∀ tx, LastOfId (updates proc acc current) tx →
      tx.blockchain.blockHeight = block.height ∧
        ∃ e ∈ c.store.displayedTransactions.rows, e.id = tx.id ∧
          tx.details = e.transaction.details := by
    intro tx htx
    obtain ⟨stored, hmem, effectiveDate, rfl⟩ := hchanges.mem_updates htx.mem
    obtain ⟨e, he, rfl⟩ := mem_currentDisplayTransactions hmem
    exact ⟨rfl, e, he, hids e he, rfl⟩
  -- an output or an input of the row is not new, and nothing new has its id
  have houtput : ∀ hash ∈ d.transaction.outputHashes,
      current.any (·.hasOutput hash) = true := fun hash hhash =>
    List.any_eq_true.mpr ⟨_, hcurrent, DisplayedTransaction.hasOutput_eq_true.mpr hhash⟩
  have hinput : ∀ hash ∈ d.transaction.inputHashes,
      current.any (·.hasInput hash) = true := fun hash hhash =>
    List.any_eq_true.mpr ⟨_, hcurrent, DisplayedTransaction.hasInput_eq_true.mpr hhash⟩
  have hnew : ∀ tx ∈ new, tx.id ≠ d.id := by
    intro tx htx hid
    simp only [NoneNewUnder, hkey] at hnone
    obtain ⟨hash, hderived, hhash | hhash⟩ := new_id hcreate tx htx
    · obtain ⟨⟨w, hw, rfl⟩, hnot⟩ := new_output hchanges hshows htx hhash
      exact Bool.eq_false_iff.mp hnot (hnone.1 w hw (hderived.trans hid))
    · obtain ⟨⟨output, hspent, rfl⟩, hnot⟩ := new_input hchanges hshows htx hhash
      exact Bool.eq_false_iff.mp hnot (hnone.2 output hspent (hderived.trans hid))
  rw [hdisplayed] at hwritten hshown
  constructor
  · -- the row is among the updates
    have hstoredKept := List.mem_map_of_mem (f := DisplayedTransaction.kept) hstored
    rw [← updates_kept proc hchanges] at hstoredKept
    obtain ⟨u, hu, hkept⟩ := List.mem_map.mp hstoredKept
    obtain ⟨last, hlast, hlastId⟩ := exists_lastOfId hu
    have hlastId : last.id = d.id :=
      hlastId.trans ((congrArg Prod.fst hkept).trans (hids d hd).symm)
    obtain ⟨d₁, hd₁, hid₁, haccount₁, hcolumn₁⟩ := updated_row
      (fun tx htx => (hupdate tx ((hmem tx).mp htx)).1) hd
    obtain ⟨d', hd', hid', haccount', hcolumn'⟩ := inserted_row new hd₁
    have hid : d'.id = d.id := hid'.trans hid₁
    rw [if_pos (List.any_eq_true.mpr ⟨last, (hmem last).mpr hlast, by simp [hlastId]⟩)] at hcolumn₁
    have hrow : d' ∈ c'.store.displayedTransactions.rows := hstore ▸ hd'
    rcases hwritten d' hrow with ⟨tx, htx, htxId, hstatus, rfl⟩ | ⟨-, hother⟩
    · obtain ⟨hheight, -, hshownStatus⟩ := hshown _ htx
      have htxId : d'.transaction.id = d.id := htxId.symm.trans hid
      have hlastTx := (hmem _).mp ((List.mem_append.mp htx).resolve_right
        (fun htx => hnew _ htx htxId))
      obtain ⟨-, e, he, heId, hdetails⟩ := hupdate _ hlastTx
      obtain rfl := c.store.displayedTransactions.eq_of_key_eq he hd (heId.trans htxId)
      exact ⟨d', hrow, hid, haccount'.trans haccount₁, hdetails, hcolumn'.trans hcolumn₁, hheight,
        hstatus.trans hshownStatus, hstatus.symm⟩
    · exact absurd (hid.trans hlastId.symm)
        (hother last (List.mem_append_left _ ((hmem last).mpr hlast)))
  · intro d' hd' _ _
    rcases hwritten d' hd' with ⟨tx, htx, htxId, -, rfl⟩ | ⟨hbefore, -⟩
    · rcases List.mem_append.mp htx with htx | htx
      · obtain ⟨-, e, he, heId, hdetails⟩ := hupdate _ ((hmem _).mp htx)
        have hid : e.id = d'.id := heId.trans htxId.symm
        refine ⟨fun hash _ hhash => ⟨e, he, hid, ?_⟩, fun hash _ hhash => ⟨e, he, hid, ?_⟩⟩
        · simpa [DisplayedTransaction.outputHashes, hdetails] using hhash
        · simpa [DisplayedTransaction.inputHashes, hdetails] using hhash
      · refine ⟨fun hash hown hhash => ?_, fun hash hown hhash => ?_⟩
        · obtain ⟨-, hnot⟩ := new_output hchanges hshows htx hhash
          exact absurd (houtput hash hown) (Bool.eq_false_iff.mp hnot)
        · obtain ⟨-, hnot⟩ := new_input hchanges hshows htx hhash
          exact absurd (hinput hash hown) (Bool.eq_false_iff.mp hnot)
    · exact ⟨fun hash _ hhash => ⟨d', hbefore, rfl, hhash⟩,
        fun hash _ hhash => ⟨d', hbefore, rfl, hhash⟩⟩

/-- In every history whose blocks find the reorganized rows that they mine again, each of these
    rows is mined again under its id, and no other row gets its outputs or inputs. -/
theorem keepsIdentity_of_run (ext : Externals) (std : StdOrder) (actions : List RemineAction)
    (hfinds : Along (remineStep ext std) (FindsReorganized ext) .empty actions) :
    Along (remineStep ext std) (KeepsIdentity ext std) .empty actions := by
  refine along_of_along (I := IdsAgree) (fun db a db' h _ hstep => remineStep_idsAgree db a db' h
    hstep) (fun db a db' hids hmeets hstep => ?_) (fun d hd => by cases hd) hfinds
  cases a with
  | processBlock bp block accountId now =>
      simp only [KeepsIdentity, hstep]
      intro d hd hremined
      obtain ⟨⟨outcome, db₁⟩, hrun, rfl⟩ := Option.map_eq_some_iff.mp hstep
      obtain ⟨c, hok, rfl⟩ := runOk_eq_some.mp hrun
      obtain ⟨hstored, hnone⟩ := hmeets d hd hremined
      exact processBlock_minesAgain hids hd hstored hnone hok
  | _ => trivial

section Decidable

variable (bp : BlockProcessor) (accountId : AccountId) (block : BlockScanResult) (ext : Externals)

instance (d : DisplayedTransactionRow) : Decidable (d.ReminedBy bp accountId block) :=
  inferInstanceAs (Decidable (_ ∧ _ ∧ (_ ∨ _)))

instance (d : DisplayedTransactionRow) (t : Table DisplayedTransactionRow) :
    Decidable (MinedAgain bp block d t) := by
  unfold MinedAgain
  infer_instance

instance (hashes : DisplayedTransaction → List FixedHash) (t : Table DisplayedTransactionRow)
    (d d' : DisplayedTransactionRow) : Decidable (GainsNone hashes t d d') :=
  inferInstanceAs (Decidable (∀ hash ∈ hashes d.transaction, _))

instance (d : DisplayedTransactionRow) (t t' : Table DisplayedTransactionRow) :
    Decidable (NotShared d t t') :=
  inferInstanceAs (Decidable (∀ d' ∈ t'.rows, _))

instance (db : Db) (id : TxId) : Decidable (NoneNewUnder bp accountId block ext db id) := by
  unfold NoneNewUnder
  split <;> infer_instance

instance (std : StdOrder) (db : Db) (a : RemineAction) :
    Decidable (KeepsIdentity ext std db a) := by
  unfold KeepsIdentity
  repeat' split
  all_goals infer_instance

instance (db : Db) (a : RemineAction) : Decidable (FindsReorganized ext db a) := by
  unfold FindsReorganized
  split <;> infer_instance

end Decidable

/-- The payment is mined at height 12, rolled back, and mined again at this height. -/
def paymentMinedAgain (height : Nat) : List RemineAction :=
  [.processBlock oneAccount fundingBlock 1 0, .finalize payment signedPayment 5 1100,
    .processBlock oneAccount paymentBlock 1 0, .rollbackFromHeight 1 11 none 1250,
    .processBlock oneAccount { paymentBlock with height, blockHash := 211 } 1 0]

/-- A payment that is mined again below its old height keeps its id. -/
theorem paymentMinedAgain_keepsIdentity :
    Along (remineStep plainEnv.toExternals .stable) (KeepsIdentity plainEnv.toExternals .stable)
        .empty (paymentMinedAgain 11) ∧
      (Transition.run (remineStep plainEnv.toExternals .stable) .empty
        (paymentMinedAgain 11)).isSome :=
  ⟨keepsIdentity_of_run plainEnv.toExternals .stable (paymentMinedAgain 11) (by decide +kernel),
    by decide +kernel⟩

/-- One block higher it is shown a second time. -/
theorem paymentMinedHigher_losesIdentity :
    ¬∀ (ext : Externals) (std : StdOrder) (actions : List RemineAction),
      Along (remineStep ext std) (KeepsIdentity ext std) .empty actions := by
  intro hall
  have hfails : ¬Along (remineStep plainEnv.toExternals .stable)
      (KeepsIdentity plainEnv.toExternals .stable) .empty (paymentMinedAgain 13) := by
    decide +kernel
  exact hfails (hall plainEnv.toExternals .stable _)

end MinotariWallet
