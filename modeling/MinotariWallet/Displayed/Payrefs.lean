import MinotariWallet.Displayed.Changes
import MinotariWallet.Displayed.ShownOnce
import MinotariWallet.Transactions.Manager

set_option autoImplicit false

/-! # Payment references of a mined transaction

A transaction that a block updates is a clone of the stored one with a new height, and keeps the
block hash and the payment references that it was built with. -/

namespace MinotariWallet

open Sql Exec DisplayedTransactionProcessor

/-- The transaction shows the block, and the payment references of its sent outputs in it. -/
def DisplayedTransaction.MinedIn (ext : Externals) (blockHash : FixedHash)
    (tx : DisplayedTransaction) : Prop :=
  tx.blockchain.blockHash = blockHash ∧
    tx.details.sentPayrefs =
      tx.details.sentOutputHashes.map (ext.generatePaymentReference blockHash)

instance (ext : Externals) (blockHash : FixedHash) (tx : DisplayedTransaction) :
    Decidable (tx.MinedIn ext blockHash) :=
  inferInstanceAs (Decidable (_ ∧ _))

/-- The stored transactions that the block updates: for each output that it records and each output
    that it spends, the first that knows it. -/
def storedUpdated (bp : BlockProcessor) (accountId : AccountId) (block : BlockScanResult)
    (db : Db) : List DisplayedTransaction :=
  let current := db.currentDisplayTransactions accountId block.height
  (ownOutputs bp accountId block.walletOutputs).filterMap
      (fun w => current.find? (·.hasOutput w.2.1.outputHash)) ++
    (block.inputs.filterMap (spentOutput? bp accountId db block.walletOutputs)).filterMap
      (fun output => current.find? (·.hasInput output.outputHash))

/-! ## What an update keeps -/

/-- What an update keeps of a transaction. -/
def DisplayedTransaction.kept (tx : DisplayedTransaction) : TxId × FixedHash × TransactionDetails :=
  (tx.id, tx.blockchain.blockHash, tx.details)

theorem LastOfId.of_map_kept {txs txs' : List DisplayedTransaction} {tx : DisplayedTransaction}
    (h : LastOfId txs tx) (hmap : txs.map (·.kept) = txs'.map (·.kept)) :
    ∃ tx', LastOfId txs' tx' ∧ tx'.kept = tx.kept := by
  obtain ⟨before, after, rfl, hlast⟩ := h
  rw [List.map_append, List.map_cons] at hmap
  obtain ⟨before', rest, rfl, -, hrest⟩ := List.map_eq_append_iff.mp hmap.symm
  obtain ⟨tx', after', rfl, htx, hafter⟩ := List.map_eq_cons_iff.mp hrest
  refine ⟨tx', ⟨before', after', rfl, fun later hl => ?_⟩, htx⟩
  obtain ⟨later', hl', hkept⟩ := List.mem_map.mp (hafter ▸ List.mem_map_of_mem hl)
  have hid : later'.id = later.id := congrArg (·.1) hkept
  have hid' : tx'.id = tx.id := congrArg (·.1) htx
  rw [← hid, hid']
  exact hlast later' hl'

theorem minedIn_of_kept {ext : Externals} {blockHash : FixedHash} {tx tx' : DisplayedTransaction}
    (h : tx'.kept = tx.kept) : tx'.MinedIn ext blockHash ↔ tx.MinedIn ext blockHash := by
  obtain ⟨-, hhash, hdetails⟩ : _ ∧ _ ∧ _ := by simpa [DisplayedTransaction.kept] using h
  rw [DisplayedTransaction.MinedIn, DisplayedTransaction.MinedIn, hhash, hdetails]

/-- The updates are the stored transactions, up to the height, the date and the status. -/
theorem updates_kept {bp : BlockProcessor} {accountId : AccountId} {block : BlockScanResult}
    {db : Db} {acc : BlockEventAccumulator} (proc : DisplayedTransactionProcessor)
    (h : BlockChanges bp accountId block db block.walletOutputs block.inputs acc) :
    (updates proc acc (db.currentDisplayTransactions accountId block.height)).map (·.kept) =
      (storedUpdated bp accountId block db).map (·.kept) := by
  unfold updates updatesOf storedUpdated
  rw [List.map_append, List.map_append]
  generalize db.currentDisplayTransactions accountId block.height = current
  congr 1
  · have hcredits := congrArg (List.filterMap (fun output : DetectedOutput =>
      (current.find? (·.hasOutput output.output.outputHash)).map (·.kept))) h.credits
    rw [List.filterMap_map, List.filterMap_map] at hcredits
    rw [List.map_filterMap, List.map_filterMap]
    refine Eq.trans (List.filterMap_congr (fun c _ => ?_)) hcredits
    rw [Option.map_map]
    rfl
  · have hdebits := congrArg (List.filterMap (fun output : WalletOutput =>
      (current.find? (·.hasInput output.outputHash)).map (·.kept))) h.debits
    rw [List.filterMap_map] at hdebits
    rw [List.map_filterMap, List.map_filterMap]
    refine Eq.trans (List.filterMap_congr (fun c _ => ?_)) hdebits
    rw [Option.map_map]
    rfl

/-! ## The block -/

/-- The payment references of the displayed transactions match the block if and only if those of the
    stored transactions that it updates do. -/
theorem displayed_minedIn_iff (ext : Externals) (std : StdOrder) (bp : BlockProcessor)
    (now : Timestamp) (block : BlockScanResult) (accountId : AccountId) (db db' : Db)
    (outcome : BlockOutcome)
    (h : runOk (bp.processBlock (ext.scanEnv std) now block accountId) db = some (outcome, db')) :
    (∀ tx ∈ outcome.displayed, tx.MinedIn ext block.blockHash) ↔
      ∀ tx, LastOfId (storedUpdated bp accountId block db) tx → tx.MinedIn ext block.blockHash := by
  obtain ⟨c', hrun, rfl⟩ := runOk_eq_some.mp h
  obtain ⟨key, acc, new, hchanges, hdisplayed, -, hshows⟩ := processBlock_displayed hrun
  have hkept := updates_kept ⟨block.height, bp.requiredConfirmations, key⟩ hchanges
  generalize updates ⟨block.height, bp.requiredConfirmations, key⟩ acc
    (db.currentDisplayTransactions accountId block.height) = updates at hdisplayed hkept
  -- a new transaction is built for the block
  have hnew : ∀ tx ∈ new, tx.MinedIn ext block.blockHash := by
    intro tx htx
    have hhash : tx.blockchain.blockHash = block.blockHash := by
      rcases List.mem_append.mp (hshows.blockHash tx htx) with hmem | hmem
      · obtain ⟨c, hc, heq⟩ := List.mem_map.mp hmem
        have hdetected := List.mem_map_of_mem (f := (·.2)) (List.mem_filter.mp hc).1
        rw [hchanges.credits] at hdetected
        obtain ⟨w, -, hw⟩ := List.mem_map.mp hdetected
        rw [← heq, ← hw]
      · obtain ⟨d, hd, heq⟩ := List.mem_map.mp hmem
        rw [← heq]
        exact (hchanges.minedInBlock d (List.mem_filter.mp hd).1).1
    exact ⟨hhash, hhash ▸ hshows.payrefs tx htx⟩
  have hmem : ∀ tx, tx ∈ std.intoValues (updates.foldl insertUpdated []) ↔ LastOfId updates tx :=
    fun tx => (std.values_perm _).mem_iff.trans mem_foldl_insertUpdated
  constructor
  · intro hall tx htx
    obtain ⟨tx', htx', heq⟩ := htx.of_map_kept hkept.symm
    refine (minedIn_of_kept heq).mp (hall tx' ?_)
    rw [hdisplayed]
    exact List.mem_append_left _ ((hmem tx').mpr htx')
  · intro hstored tx htx
    rw [hdisplayed] at htx
    rcases List.mem_append.mp htx with htx | htx
    · obtain ⟨tx', htx', heq⟩ := ((hmem tx).mp htx).of_map_kept hkept
      exact (minedIn_of_kept heq).mp (hstored tx' htx')
    · exact hnew tx htx

/-! ## Pending transactions -/

/-- What a signed transaction creates: the hash and the value of each output, and the hashes that
    were sent to the recipient. -/
structure SignedOutputs where
  outputs : List (FixedHash × MicroMinotari)
  changeOutput : Option (FixedHash × MicroMinotari)
  sentHashes : List FixedHash

/-- What a transaction shows of an output that is not mined yet. -/
def unminedOutput (isChange : Bool) (output : FixedHash × MicroMinotari) : TransactionOutput where
  hash := output.1
  amount := output.2
  status := .unspent
  minedInBlockHeight := 0
  minedInBlockHash := 0
  outputType := .standard
  isChange := isChange

/-- What a transaction shows of an input that is not mined yet. -/
def DbWalletOutput.toTransactionInput (input : DbWalletOutput) : TransactionInput where
  outputHash := input.output.outputHash
  amount := input.output.value
  minedInBlockHash := 0
  matchedOutputId := input.id

/-- `build_pending_displayed_transaction`. -/
def buildPendingDisplayedTransaction (ext : Externals) (prepared : PreparedTransaction)
    (signed : SignedOutputs) (fee : MicroMinotari) (now : Timestamp) :
    Except ProcessorError DisplayedTransaction :=
  let credit := (signed.changeOutput.map (·.2)).getD 0
  let debit := (prepared.selectedUtxos.map (·.output.value)).sum
  let builder : DisplayedTransactionBuilder := {
    accountId := some prepared.accountId
    direction := some .outgoing
    status := some .pending
    source := some .oneSided
    message := prepared.recipient.paymentId
    counterpartyAddress := some prepared.recipient.address
    fee := some fee
    inputs := prepared.selectedUtxos.map (·.toTransactionInput)
    outputs := signed.outputs.map (unminedOutput false) ++
      (signed.changeOutput.map (unminedOutput true)).toList
    sentOutputHashes := signed.sentHashes }
  ((builder.creditsAndDebits credit debit).blockchainInfo 0 0 now 0).build ext prepared.txId

/-- A pending transaction is built for the block hash 0, so it never matches the block that mines
    it. -/
theorem pending_not_minedIn (ext : Externals) (prepared : PreparedTransaction)
    (signed : SignedOutputs) (fee : MicroMinotari) (now : Timestamp) {blockHash : FixedHash}
    (hne : blockHash ≠ 0) :
    ∃ tx, buildPendingDisplayedTransaction ext prepared signed fee now = .ok tx ∧
      ¬tx.MinedIn ext blockHash := by
  obtain ⟨tx, hbuild, -, -, -, -, hhash, -⟩ := build_blockchainInfo ext {
    accountId := some prepared.accountId
    direction := some .outgoing
    status := some .pending
    source := some .oneSided
    message := prepared.recipient.paymentId
    counterpartyAddress := some prepared.recipient.address
    fee := some fee
    inputs := prepared.selectedUtxos.map (·.toTransactionInput)
    outputs := signed.outputs.map (unminedOutput false) ++
      (signed.changeOutput.map (unminedOutput true)).toList
    sentOutputHashes := signed.sentHashes }
    ((signed.changeOutput.map (·.2)).getD 0) (prepared.selectedUtxos.map (·.output.value)).sum
    0 0 now 0 prepared.txId
  exact ⟨tx, hbuild, fun h => hne (h.1.symm.trans hhash)⟩

/-! ## A payment that is mined -/

/-- Account 1, which the scanner calls 0, with view key 7. -/
def oneAccount : BlockProcessor := .withEventSender [(1, 7)] 3

/-- An output of 100. -/
def fundingBlock : BlockScanResult :=
  ⟨10, 110, [(500, { outputHash := 500, value := 100 }, 0)], [], 1000⟩

/-- A payment of 60 from it, with a change of 35. -/
def payment : PreparedTransaction where
  id := 1
  accountId := 1
  idempotencyKey := "payment"
  recipient := { address := 9, amount := 60 }
  selectedUtxos := [⟨1, 7500, { outputHash := 500, value := 100 }⟩]
  inputs := [⟨1, 7500, { outputHash := 500, value := 100 }⟩]
  txId := 77

def signedPayment : SignedOutputs where
  outputs := [(605, 60)]
  changeOutput := some (604, 35)
  sentHashes := [605]

def paymentBlock : BlockScanResult :=
  ⟨12, 112, [(604, { outputHash := 604, value := 35 }, 0)], [500], 1240⟩

/-- The database after the first block was rolled back. -/
def fundingRolledBack (std : StdOrder) : Option Db := do
  let (_, db) ← runOk (oneAccount.processBlock (plainEnv.toExternals.scanEnv std) 0 fundingBlock 1)
    .empty
  let (_, db) ← runOk (rollbackFromHeight 1 10 none 1050) db
  pure db

/-- A block that is mined again updates the transaction that has shown it before. -/
theorem displayed_minedIn_minedAgain :
    ∃ db db' outcome, fundingRolledBack .stable = some db ∧
      runOk (oneAccount.processBlock (plainEnv.toExternals.scanEnv .stable) 0 fundingBlock 1) db =
        some (outcome, db') ∧
      ((∀ tx ∈ outcome.displayed, tx.MinedIn plainEnv.toExternals 110) ↔
        ∀ tx, LastOfId (storedUpdated oneAccount 1 fundingBlock db) tx →
          tx.MinedIn plainEnv.toExternals 110) := by
  obtain ⟨db, hdb, hrun⟩ : ∃ db, fundingRolledBack .stable = some db ∧
      (runOk (oneAccount.processBlock (plainEnv.toExternals.scanEnv .stable) 0 fundingBlock 1)
        db).isSome := by
    have hsome : (fundingRolledBack .stable).any (fun db => (runOk (oneAccount.processBlock
        (plainEnv.toExternals.scanEnv .stable) 0 fundingBlock 1) db).isSome) = true := by
      decide +kernel
    exact (Option.any_eq_true _ _).mp hsome
  obtain ⟨⟨outcome, db'⟩, hrun⟩ := Option.isSome_iff_exists.mp hrun
  exact ⟨db, db', outcome, hdb, hrun, displayed_minedIn_iff plainEnv.toExternals .stable oneAccount
    0 fundingBlock 1 db db' outcome hrun⟩

/-- The database before the payment is mined. -/
def paymentPending (std : StdOrder) : Option Db := do
  let (_, db) ← runOk (oneAccount.processBlock (plainEnv.toExternals.scanEnv std) 0 fundingBlock 1)
    .empty
  let pending ← (buildPendingDisplayedTransaction plainEnv.toExternals payment signedPayment 5
    1100).toOption
  pure (db.insertDisplayedTransaction pending)

/-- The mined payment keeps the references that were computed with the block hash 0. -/
theorem payment_not_minedIn :
    ¬∀ (ext : Externals) (std : StdOrder) (bp : BlockProcessor) (now : Timestamp)
      (block : BlockScanResult) (accountId : AccountId) (db db' : Db) (outcome : BlockOutcome),
      runOk (bp.processBlock (ext.scanEnv std) now block accountId) db = some (outcome, db') →
        ∀ tx ∈ outcome.displayed, tx.MinedIn ext block.blockHash := by
  intro hall
  have hrun : ((paymentPending .stable).bind (fun db => runOk (oneAccount.processBlock
      (plainEnv.toExternals.scanEnv .stable) 0 paymentBlock 1) db)).any (fun r =>
        r.1.displayed.any (fun tx => !decide (tx.MinedIn plainEnv.toExternals 112))) = true := by
    decide +kernel
  obtain ⟨⟨outcome, db'⟩, hsome, htx⟩ := (Option.any_eq_true _ _).mp hrun
  obtain ⟨db, -, hrun⟩ := Option.bind_eq_some_iff.mp hsome
  obtain ⟨tx, hmem, hnot⟩ := List.any_eq_true.mp htx
  have hmined := hall plainEnv.toExternals .stable oneAccount 0 paymentBlock 1 db db' outcome hrun
    tx hmem
  simp [show tx.MinedIn plainEnv.toExternals 112 from hmined] at hnot

end MinotariWallet
