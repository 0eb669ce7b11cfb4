import MinotariWallet.Displayed.Checked
import MinotariWallet.Displayed.Shows
import MinotariWallet.Scan.Announced

set_option autoImplicit false

/-! # The changes of a processed block

What `process_block` hands to the processor of displayed transactions, as a function of the block
and of the database before it, and what it does with the answer. -/

namespace MinotariWallet

open Sql Exec

/-- The undeleted output of the account with the hash, as its JSON has it. -/
def Db.ownOutput? (db : Db) (accountId : AccountId) (hash : FixedHash) : Option WalletOutput :=
  (db.getOutputInfoByHashForAccount accountId hash).map (·.output)

section Outputs

variable {db : Db} {accountId : AccountId} {hash : FixedHash}

theorem ownOutput?_eq :
    db.ownOutput? accountId hash = ((db.outputs.select (fun o => o.accountId == accountId
      && o.outputHash == hash && o.active)).map (·.walletOutput)).head? := by
  simp only [Db.ownOutput?, Db.getOutputInfoByHashForAccount, Table.find?, Table.select,
    List.head?_map, List.head?_filter, Option.map_map]
  rfl

theorem ownOutput?_congr {db' : Db} (h : db'.outputs = db.outputs) :
    db'.ownOutput? accountId hash = db.ownOutput? accountId hash := by
  rw [ownOutput?_eq, ownOutput?_eq, h]

theorem ownOutput?_insertOutput {ext : Externals} {key : PrivateKey} {outputHash : FixedHash}
    {output : WalletOutput} {blockHeight : Nat} {blockHash : FixedHash} {minedTimestamp : Nat}
    {memoParsed memoHex : Option Memo} {payref : PaymentReference} {isBurn : Bool} {db' : Db}
    {id : Id} (h : db.insertOutput ext accountId key outputHash output blockHeight blockHash
      minedTimestamp memoParsed memoHex payref isBurn = .ok (id, db')) :
    db'.ownOutput? accountId hash =
      (db.ownOutput? accountId hash).or (if outputHash = hash then some output else none) := by
  obtain ⟨timestamp, -, -, -, rfl⟩ := insertOutput_ok h
  rw [ownOutput?_eq, ownOutput?_eq]
  by_cases hhash : outputHash = hash
  · simp [Table.select, AutoTable.insert, newOutputRow, OutputRow.active, hhash]
  · simp [Table.select, AutoTable.insert, newOutputRow, OutputRow.active, hhash]

theorem ownOutput?_updateOutputStatus (outputId : Id) (status : OutputStatus) :
    (db.updateOutputStatus outputId status).ownOutput? accountId hash =
      db.ownOutput? accountId hash := by
  rw [ownOutput?_eq, ownOutput?_eq]
  have hselect := Table.map_select_updateWhere (t := db.outputs.toTable)
    (p := fun o => o.id == outputId) (f := fun o => { o with status })
    (q := fun o => o.accountId == accountId && o.outputHash == hash && o.active)
    (v := (·.walletOutput)) (fun _ _ => rfl) (fun _ _ => rfl) (by intro _; rfl)
  exact congrArg List.head? hselect

end Outputs

section Block

variable (bp : BlockProcessor) (accountId : AccountId)

/-- The outputs among these that the processor records for the account. -/
def ownOutputs (walletOutputs : List (FixedHash × WalletOutput × Nat)) :
    List (FixedHash × WalletOutput × Nat) :=
  walletOutputs.filter (fun w => bp.walletIndexToAccountId[w.2.2]? == some accountId)

/-- The output that an input spends: one of the database, or one of these. -/
def spentOutput? (db : Db) (walletOutputs : List (FixedHash × WalletOutput × Nat))
    (input : FixedHash) : Option WalletOutput :=
  (db.ownOutput? accountId input).or
    (((ownOutputs bp accountId walletOutputs).find? (·.1 == input)).map (·.2.1))

/-- The changes that these outputs and inputs of the block make on the database. -/
structure BlockChanges (block : BlockScanResult) (db : Db)
    (outputs : List (FixedHash × WalletOutput × Nat)) (inputs : List FixedHash)
    (acc : BlockEventAccumulator) : Prop where
  isFor : acc.IsFor accountId block
  credits : acc.creditBalanceChanges.map (·.2) = (ownOutputs bp accountId outputs).map
    (fun w => ⟨block.height, block.blockHash, w.2.1⟩)
  creditValues : ∀ c ∈ acc.creditBalanceChanges, c.1.balanceCredit = c.2.output.value
  debits : acc.debitBalanceChanges.map (·.2.output) =
    inputs.filterMap (spentOutput? bp accountId db outputs)
  debitValues : ∀ d ∈ acc.debitBalanceChanges, d.1.balanceDebit = d.2.output.value
  minedInBlock : ∀ d ∈ acc.debitBalanceChanges, d.2.minedInBlock = block.blockHash ∧
    d.2.minedInBlockHeight = block.height

/-- With these outputs and inputs processed: their changes, and what the database still answers. -/
structure Processed (block : BlockScanResult) (before : Db)
    (outputs : List (FixedHash × WalletOutput × Nat)) (inputs : List FixedHash)
    (acc : BlockEventAccumulator) (db : Db) : Prop extends
    BlockChanges bp accountId block before outputs inputs acc where
  found : ∀ hash, db.ownOutput? accountId hash = spentOutput? bp accountId before outputs hash
  displayed : db.displayedTransactions = before.displayedTransactions

variable {env : ScanEnv} {bp accountId} {block : BlockScanResult} {now : Timestamp} {before : Db}
  {outputs : List (FixedHash × WalletOutput × Nat)} {inputs : List FixedHash}
  {acc : BlockEventAccumulator}

theorem Processed.of_eq {db db' : Db}
    (h : Processed bp accountId block before outputs inputs acc db)
    (houtputs : db'.outputs = db.outputs)
    (hdisplayed : db'.displayedTransactions = db.displayedTransactions) :
    Processed bp accountId block before outputs inputs acc db' where
  toBlockChanges := h.toBlockChanges
  found hash := (ownOutput?_congr houtputs).trans (h.found hash)
  displayed := hdisplayed.trans h.displayed

theorem processOutput_processed {key : PrivateKey} {st : BlockProcessor.LoopState}
    {w : FixedHash × WalletOutput × Nat} :
    Ensures (Processed bp accountId block before outputs [] st.acc)
      (BlockProcessor.processOutput env bp now block accountId key st w)
      (fun st' => Processed bp accountId block before (outputs ++ [w]) [] st'.acc) := by
  obtain ⟨hash, output, walletIdx⟩ := w
  unfold BlockProcessor.processOutput
  dsimp only
  have hskip : ∀ db, bp.walletIndexToAccountId[walletIdx]? ≠ some accountId →
      Processed bp accountId block before outputs [] st.acc db →
      Processed bp accountId block before (outputs ++ [(hash, output, walletIdx)]) [] st.acc
        db := by
    intro db hidx h
    have hown : ownOutputs bp accountId (outputs ++ [(hash, output, walletIdx)]) =
        ownOutputs bp accountId outputs := by
      simp [ownOutputs, hidx]
    refine ⟨⟨h.isFor, ?_, h.creditValues, h.debits, h.debitValues, h.minedInBlock⟩,
      fun hash' => ?_, h.displayed⟩
    · rw [hown, h.credits]
    · rw [h.found, spentOutput?, spentOutput?, hown]
  split
  · next hidx => exact Ensures.pure (fun db h => hskip db (by simp [hidx]) h)
  · next mapped hidx =>
      refine Ensures.ite (fun hne => Ensures.pure (fun db h => hskip db ?_ h)) (fun heq => ?_)
      · simpa [hidx] using hne
      have hown : ownOutputs bp accountId (outputs ++ [(hash, output, walletIdx)]) =
          ownOutputs bp accountId outputs ++ [(hash, output, walletIdx)] := by
        simp [ownOutputs, hidx, not_not.mp heq]
      -- the output is found from now on, after those that were there before
      let Recorded : Db → Prop := fun db =>
        BlockChanges bp accountId block before outputs [] st.acc ∧
        (∀ hash', db.ownOutput? accountId hash' =
          spentOutput? bp accountId before (outputs ++ [(hash, output, walletIdx)]) hash') ∧
        db.displayedTransactions = before.displayedTransactions
      refine Ensures.bind (Q := fun _ => Recorded) (Ensures.stmt (fun db id db' h hins => ?_))
        (fun id => ?_)
      · refine ⟨h.toBlockChanges, fun hash' => ?_, ?_⟩
        · rw [ownOutput?_insertOutput hins, h.found, spentOutput?, spentOutput?, hown,
            List.find?_append, Option.map_or, ← Option.or_assoc]
          by_cases hhash : hash = hash' <;> simp [hhash]
        · obtain ⟨timestamp, -, -, -, rfl⟩ := insertOutput_ok hins
          exact h.displayed
      refine Ensures.bind (Q := fun _ => Recorded) (Ensures.insert (fun db h => h))
        (fun _ => ?_)
      refine Ensures.bind (Q := fun _ => Recorded) (Ensures.insert (fun db h => h))
        (fun _ => ?_)
      refine Ensures.pure (fun db h => ?_)
      obtain ⟨h, hfound, hdisplayed⟩ := h
      refine ⟨⟨h.isFor, ?_, fun c hc => ?_, h.debits, h.debitValues, h.minedInBlock⟩, hfound,
        hdisplayed⟩
      · simp [BlockEventAccumulator.addCreditChange, h.credits, hown]
      · rcases List.mem_append.mp hc with hc | hc
        · exact h.creditValues c hc
        · rw [List.mem_singleton.mp hc]
          rfl

theorem processInput_processed {input : FixedHash} :
    Ensures (Processed bp accountId block before outputs inputs acc)
      (BlockProcessor.processInput now block accountId acc input)
      (fun acc' => Processed bp accountId block before outputs (inputs ++ [input]) acc') := by
  unfold BlockProcessor.processInput
  refine Ensures.bind (Q := fun info db =>
    Processed bp accountId block before outputs inputs acc db ∧
      spentOutput? bp accountId before outputs input = info.map (·.output))
    (Ensures.query (fun db h => ⟨h, (h.found input).symm⟩)) (fun info => ?_)
  cases info with
  | none =>
      refine Ensures.pure (fun db h => ?_)
      obtain ⟨h, hnone⟩ := h
      refine ⟨⟨h.isFor, h.credits, h.creditValues, ?_, h.debitValues, h.minedInBlock⟩, h.found,
        h.displayed⟩
      simp [h.debits, hnone]
  | some info =>
      let Found : Db → Prop := fun db => Processed bp accountId block before outputs inputs acc db ∧
        spentOutput? bp accountId before outputs input = some info.output
      refine Ensures.bind (Q := fun _ => Found) ?_ (fun inputId => ?_)
      · unfold insertInput
        split
        · exact Ensures.throw
        · refine Ensures.bind (Q := fun _ => Found) (Ensures.update (fun db h => ⟨?_, h.2⟩))
            (fun _ => Ensures.tryQuery (fun _ _ h _ => h))
          refine h.1.of_eq (outputs_insertOrIgnoreInput _ _ _ _ _ _) ?_
          unfold Db.insertOrIgnoreInput
          split <;> rfl
      refine Ensures.bind (Q := fun _ => Found)
        (Ensures.insert (fun db h => ⟨h.1.of_eq rfl rfl, h.2⟩)) (fun _ => ?_)
      refine Ensures.bind (Q := fun _ => Found) (Ensures.update (fun db h => ⟨?_, h.2⟩))
        (fun _ => Ensures.pure (fun db h => ?_))
      · exact ⟨h.1.toBlockChanges,
          fun hash => (ownOutput?_updateOutputStatus _ _).trans (h.1.found hash), h.1.displayed⟩
      · obtain ⟨h, hspent⟩ := h
        refine ⟨⟨h.isFor, h.credits, h.creditValues, ?_, fun d hd => ?_, fun d hd => ?_⟩, h.found,
          h.displayed⟩
        · simp [BlockEventAccumulator.addDebitChange, h.debits, hspent]
        · rcases List.mem_append.mp hd with hd | hd
          · exact h.debitValues d hd
          · rw [List.mem_singleton.mp hd]
            rfl
        · rcases List.mem_append.mp hd with hd | hd
          · exact h.minedInBlock d hd
          · rw [List.mem_singleton.mp hd]
            exact ⟨rfl, rfl⟩

/-- All outputs of the block. -/
theorem processOutputs_processed {key : PrivateKey} :
    Ensures (· = before)
      (BlockProcessor.processOutputs env bp now block accountId key
        { accountId, height := block.height, blockHash := block.blockHash })
      (fun st => Processed bp accountId block before block.walletOutputs [] st.acc) := by
  unfold BlockProcessor.processOutputs
  let Done : List (FixedHash × WalletOutput × Nat) → BlockProcessor.LoopState → Db → Prop :=
    fun rest st db => ∃ done, block.walletOutputs = done ++ rest ∧
      Processed bp accountId block before done [] st.acc db
  refine Ensures.bind (Q := Done []) ?_ (fun st => ?_)
  · refine (Ensures.foldlM (I := Done) _ _ (fun w rest st => ?_)).mono (fun db hdb => ?_)
      (fun _ _ h => h)
    · intro c st' c' hpre hrun
      obtain ⟨done, hdone, hpre⟩ := hpre
      exact ⟨done ++ [w], by simpa using hdone, processOutput_processed c st' c' hpre hrun⟩
    · subst hdb
      exact ⟨[], rfl, ⟨⟨⟨rfl, rfl, rfl⟩, rfl, by simp, rfl, by simp, by simp⟩,
        fun hash => by simp [spentOutput?, ownOutputs], rfl⟩⟩
  · refine Ensures.bind (Q := fun _ => Done [] st) ?_ (fun _ => Ensures.pure (fun db h => ?_))
    · intro c _ c' hpre hrun
      obtain ⟨done, hdone, hpre⟩ := hpre
      have hkeeps := (triggerWebhooks_keepsView
        (v := fun db => (db.outputs, db.displayedTransactions)) (fun _ _ => rfl) accountId
        st.generatedEvents bp.webhookConfig now).ensures (· = (c.store.outputs,
          c.store.displayedTransactions)) c () c' rfl hrun
      obtain ⟨houtputs, hdisplayed⟩ := Prod.mk.inj hkeeps
      exact ⟨done, hdone, hpre.of_eq houtputs hdisplayed⟩
    · obtain ⟨done, hdone, hprocessed⟩ := h
      rw [hdone, List.append_nil]
      exact hprocessed

/-- All inputs of the block. -/
theorem processInputs_processed :
    Ensures (Processed bp accountId block before outputs [] acc)
      (BlockProcessor.processInputs now block accountId acc)
      (fun acc' => Processed bp accountId block before outputs block.inputs acc') := by
  let Done : List FixedHash → BlockEventAccumulator → Db → Prop :=
    fun rest acc db => ∃ done, block.inputs = done ++ rest ∧
      Processed bp accountId block before outputs done acc db
  refine (Ensures.foldlM (I := Done) block.inputs acc (fun input rest acc => ?_)).mono
    (fun db h => ⟨[], rfl, h⟩) (fun acc' db h => ?_)
  · intro c acc' c' hpre hrun
    obtain ⟨done, hdone, hpre⟩ := hpre
    exact ⟨done ++ [input], by simpa using hdone, processInput_processed c acc' c' hpre hrun⟩
  · obtain ⟨done, hdone, hprocessed⟩ := h
    rw [hdone, List.append_nil]
    exact hprocessed

theorem recordScannedBlock_keepsDisplayed :
    Keeps Db.displayedTransactions (BlockProcessor.recordScannedBlock block accountId) := by
  refine Keeps.update (fun db => ?_)
  unfold Db.insertScannedTipBlock
  split <;> rfl

theorem processConfirmations_keepsDisplayed :
    Keeps Db.displayedTransactions
      (BlockProcessor.processConfirmations bp now block accountId) := by
  refine Keeps.bind Keeps.query (fun unconfirmed => Keeps.bind ?_ (fun events => ?_))
  · exact Keeps.foldlM (fun _ _ => Keeps.bind (Keeps.insert (fun _ => rfl))
      (fun _ => Keeps.bind (Keeps.update (fun _ => rfl)) (fun _ => Keeps.pure)))
  · exact Keeps.bind (triggerWebhooks_keepsView (fun _ _ => rfl) _ _ _ _) (fun _ => Keeps.pure)

/-- A processed block saves displayed transactions for its changes, on the displayed transactions
    that were there before. -/
theorem processBlock_saves {c c' : Conn Db} {outcome : BlockOutcome}
    (h : bp.processBlock env now block accountId c = .ok outcome c') :
    ∃ key acc c₁ ready, bp.accountViewKey accountId = .ok key ∧
      BlockChanges bp accountId block c.store block.walletOutputs block.inputs acc ∧
      c₁.store.displayedTransactions = c.store.displayedTransactions ∧
      BlockProcessor.saveAndEmitDisplayedTransactions env bp block.height accountId key acc c₁ =
        .ok ready c' ∧
      outcome.processingEvents = ready ++ [.blockProcessed acc.intoEvent] := by
  obtain ⟨key, c₁, hkey, h⟩ := bind_ok.mp h
  obtain ⟨st, c₂, houtputs, h⟩ := bind_ok.mp h
  obtain ⟨acc, c₃, hinputs, h⟩ := bind_ok.mp h
  obtain ⟨_, c₄, hrecord, h⟩ := bind_ok.mp h
  obtain ⟨confirmed, c₅, hconfirmed, h⟩ := bind_ok.mp h
  obtain ⟨ready, c₆, hready, h⟩ := bind_ok.mp h
  obtain ⟨rfl, rfl⟩ := pure_ok.mp h
  obtain ⟨hviewKey, rfl⟩ := lift_ok hkey
  have hst := processOutputs_processed _ _ _ rfl houtputs
  have hacc := processInputs_processed _ _ _ hst hinputs
  refine ⟨key, acc, c₅, ready, hviewKey, hacc.toBlockChanges, ?_, hready, rfl⟩
  calc c₅.store.displayedTransactions = c₄.store.displayedTransactions :=
        processConfirmations_keepsDisplayed.ensures (· = c₄.store.displayedTransactions) _ _ _ rfl
          hconfirmed
    _ = c₃.store.displayedTransactions :=
        recordScannedBlock_keepsDisplayed.ensures (· = c₃.store.displayedTransactions) _ _ _ rfl
          hrecord
    _ = _ := hacc.displayed

end Block

/-! ## What is saved -/

/-- The displayed transactions that a block at this height is matched against. -/
def Db.currentDisplayTransactions (db : Db) (accountId : AccountId) (height : Nat) :
    List DisplayedTransaction :=
  let current := db.getDisplayedTransactionsFromHeight accountId height
  current ++ (db.getDisplayedTransactionsByStatus accountId .pending).filter
    (fun tx => !(current.map (·.id)).contains tx.id)

theorem currentDisplayTransactions_congr {db db' : Db} {accountId : AccountId} {height : Nat}
    (h : db'.displayedTransactions = db.displayedTransactions) :
    db'.currentDisplayTransactions accountId height =
      db.currentDisplayTransactions accountId height := by
  simp only [Db.currentDisplayTransactions, Db.getDisplayedTransactionsFromHeight,
    Db.getDisplayedTransactionsByStatus, Db.orderedDisplayedTransactions, h]

theorem createNewUpdatedDisplayTransactionsForHeight_ok {env : ScanEnv} {bp : BlockProcessor}
    {key : PrivateKey} {acc : BlockEventAccumulator} {c c' : Conn Db}
    {r : List DisplayedTransaction × List DisplayedTransaction}
    (h : BlockProcessor.createNewUpdatedDisplayTransactionsForHeight env bp key acc c = .ok r c') :
    env.createNewUpdatedDisplayTransactions acc.height bp.requiredConfirmations key acc
        (c.store.currentDisplayTransactions acc.accountId acc.height) = .ok r ∧
      c'.store = c.store := by
  obtain ⟨current, c₁, hcurrent, h⟩ := bind_ok.mp h
  obtain ⟨pendingTxs, c₂, hpending, h⟩ := bind_ok.mp h
  obtain ⟨rfl, hc₁⟩ := query_ok hcurrent
  obtain ⟨rfl, hc₂⟩ := query_ok hpending
  rw [hc₁] at h hc₂
  cases hr : env.createNewUpdatedDisplayTransactions acc.height bp.requiredConfirmations key acc
      (c.store.currentDisplayTransactions acc.accountId acc.height) with
  | error e =>
      unfold Db.currentDisplayTransactions at hr
      simp only [hr] at h
      cases h
  | ok r' =>
      unfold Db.currentDisplayTransactions at hr
      simp only [hr] at h
      obtain ⟨rfl, rfl⟩ := pure_ok.mp h
      exact ⟨rfl, hc₂⟩

/-- `process_block` has no changes and saves nothing, or writes the updated and the new
    transactions. -/
theorem saveAndEmitDisplayedTransactions_ok {env : ScanEnv} {bp : BlockProcessor}
    {accountId : AccountId} {blockHeight : Nat} {key : PrivateKey} {acc : BlockEventAccumulator}
    {c c' : Conn Db} {ready : List ProcessingEvent}
    (h : BlockProcessor.saveAndEmitDisplayedTransactions env bp blockHeight accountId key acc c =
      .ok ready c') :
    (acc.isEmpty ∧ ready = [] ∧ c' = c) ∨
    (∃ updated new, env.createNewUpdatedDisplayTransactions acc.height bp.requiredConfirmations key
        acc (c.store.currentDisplayTransactions acc.accountId acc.height) = .ok (updated, new) ∧
      ready = [.transactionsReady ⟨accountId, updated ++ new, some blockHeight, false⟩] ∧
      c'.store = new.foldl Db.insertDisplayedTransaction
        (updated.foldl Db.updateDisplayedTransactionMined c.store)) := by
  unfold BlockProcessor.saveAndEmitDisplayedTransactions at h
  split at h
  · next hempty =>
      obtain ⟨rfl, rfl⟩ := pure_ok.mp h
      exact Or.inl ⟨hempty, rfl, rfl⟩
  · obtain ⟨⟨updated, new⟩, c₁, hcreate, h⟩ := bind_ok.mp h
    obtain ⟨_, c₂, hupdate, h⟩ := bind_ok.mp h
    obtain ⟨_, c₃, hinsert, h⟩ := bind_ok.mp h
    obtain ⟨rfl, rfl⟩ := pure_ok.mp h
    obtain ⟨hcurrent, hsame⟩ := createNewUpdatedDisplayTransactionsForHeight_ok hcreate
    refine Or.inr ⟨updated, new, hcurrent, rfl, ?_⟩
    rw [forM_update_ok hinsert, forM_update_ok hupdate, hsame]

/-- The transactions that the processor has updated and inserted. -/
def BlockOutcome.displayed (outcome : BlockOutcome) : List DisplayedTransaction :=
  outcome.processingEvents.flatMap (fun event =>
    match event with
    | .blockProcessed _ => []
    | .transactionsReady event => event.transactions)

theorem foldl_displayed_congr {write : Db → DisplayedTransaction → Db}
    (hwrite : ∀ db db' tx, db.displayedTransactions = db'.displayedTransactions →
      (write db tx).displayedTransactions = (write db' tx).displayedTransactions)
    {txs : List DisplayedTransaction} {db db' : Db}
    (h : db.displayedTransactions = db'.displayedTransactions) :
    (txs.foldl write db).displayedTransactions = (txs.foldl write db').displayedTransactions := by
  induction txs generalizing db db' with
  | nil => exact h
  | cons tx txs ih => exact ih (hwrite db db' tx h)

theorem insertDisplayedTransaction_congr (db db' : Db) (tx : DisplayedTransaction)
    (h : db.displayedTransactions = db'.displayedTransactions) :
    (db.insertDisplayedTransaction tx).displayedTransactions =
      (db'.insertDisplayedTransaction tx).displayedTransactions := by
  unfold Db.insertDisplayedTransaction
  rw [h]
  split <;> rfl

/-- The rows after the updates and the inserts of a block. -/
def Db.writeDisplayed (db : Db) (updated new : List DisplayedTransaction) : Db :=
  new.foldl Db.insertDisplayedTransaction (updated.foldl Db.updateDisplayedTransactionMined db)

theorem writeDisplayed_congr {db db' : Db} {updated new : List DisplayedTransaction}
    (h : db.displayedTransactions = db'.displayedTransactions) :
    (db.writeDisplayed updated new).displayedTransactions =
      (db'.writeDisplayed updated new).displayedTransactions := by
  refine foldl_displayed_congr insertDisplayedTransaction_congr (foldl_displayed_congr ?_ h)
  intro db db' tx h
  simp only [Db.updateDisplayedTransactionMined, h]

section Displayed

open DisplayedTransactionProcessor

/-- A processed block writes what the processor makes of its changes. -/
theorem processBlock_creates {ext : Externals} {std : StdOrder} {bp : BlockProcessor}
    {now : Timestamp} {block : BlockScanResult} {accountId : AccountId} {c c' : Conn Db}
    {outcome : BlockOutcome}
    (h : bp.processBlock (ext.scanEnv std) now block accountId c = .ok outcome c') :
    ∃ key acc updated new, bp.accountViewKey accountId = .ok key ∧
      BlockChanges bp accountId block c.store block.walletOutputs block.inputs acc ∧
      createNewUpdatedDisplayTransactions ext std ⟨block.height, bp.requiredConfirmations, key⟩ acc
        (c.store.currentDisplayTransactions accountId block.height) = .ok (updated, new) ∧
      outcome.displayed = updated ++ new ∧
      c'.store.displayedTransactions =
        (c.store.writeDisplayed updated new).displayedTransactions := by
  obtain ⟨key, acc, c₁, ready, hkey, hchanges, hbefore, hsave, hevents⟩ := processBlock_saves h
  obtain ⟨hid, hheight, hhash⟩ := hchanges.isFor
  rcases saveAndEmitDisplayedTransactions_ok hsave with ⟨hempty, rfl, rfl⟩ |
    ⟨updated, new, hcreate, rfl, hstore⟩
  · -- without changes there is nothing to update and nothing new
    simp only [BlockEventAccumulator.isEmpty, Bool.and_eq_true, List.isEmpty_iff] at hempty
    obtain ⟨new, hrun, hshows⟩ := @createNewUpdatedDisplayTransactions_shows ext std
      ⟨block.height, bp.requiredConfirmations, key⟩ acc
      (c.store.currentDisplayTransactions accountId block.height) hchanges.debitValues
    have hnew : new = [] := List.eq_nil_iff_forall_not_mem.mpr (fun tx htx => by
      simpa [newCredits, newDebits, hempty.1, hempty.2] using hshows.blockHash tx htx)
    have hnone : std.intoValues ([] : List DisplayedTransaction) = [] :=
      (std.values_perm _).eq_nil
    subst hnew
    refine ⟨key, acc, _, _, hkey, hchanges, hrun, ?_, ?_⟩
    · simp [BlockOutcome.displayed, hevents, updates, updatesOf, hempty.1, hempty.2, hnone]
    · simp [updates, updatesOf, hempty.1, hempty.2, hnone, Db.writeDisplayed, hbefore]
  · rw [hid, hheight, currentDisplayTransactions_congr hbefore] at hcreate
    refine ⟨key, acc, updated, new, hkey, hchanges, ?_, ?_, ?_⟩
    · exact Checked.createNewUpdatedDisplayTransactions_refines _ _
        (Externals.scanEnv_eq_ok hcreate)
    · simp [BlockOutcome.displayed, hevents]
    · exact (congrArg Db.displayedTransactions hstore).trans (writeDisplayed_congr hbefore)

/-- A processed block writes the updated and the new transactions of its changes. -/
theorem processBlock_displayed {ext : Externals} {std : StdOrder} {bp : BlockProcessor}
    {now : Timestamp} {block : BlockScanResult} {accountId : AccountId} {c c' : Conn Db}
    {outcome : BlockOutcome}
    (h : bp.processBlock (ext.scanEnv std) now block accountId c = .ok outcome c') :
    ∃ key acc new,
      BlockChanges bp accountId block c.store block.walletOutputs block.inputs acc ∧
      let proc : DisplayedTransactionProcessor := ⟨block.height, bp.requiredConfirmations, key⟩
      let current := c.store.currentDisplayTransactions accountId block.height
      let updated := std.intoValues ((updates proc acc current).foldl insertUpdated [])
      outcome.displayed = updated ++ new ∧
      c'.store.displayedTransactions = (c.store.writeDisplayed updated new).displayedTransactions ∧
      ShowsAll ext new (newCredits current acc.creditBalanceChanges)
        (newDebits current acc.debitBalanceChanges) := by
  obtain ⟨key, acc, updated, new, -, hchanges, hcreate, hdisplayed, hstore⟩ :=
    processBlock_creates h
  obtain ⟨new', hrun, hshows⟩ := @createNewUpdatedDisplayTransactions_shows ext std
    ⟨block.height, bp.requiredConfirmations, key⟩ acc
    (c.store.currentDisplayTransactions accountId block.height) hchanges.debitValues
  obtain ⟨rfl, rfl⟩ := Prod.mk.inj (Except.ok.inj (hcreate.symm.trans hrun))
  exact ⟨key, acc, new, hchanges, hdisplayed, hstore, hshows⟩

end Displayed

end MinotariWallet
