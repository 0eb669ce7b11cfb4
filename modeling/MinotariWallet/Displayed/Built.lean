import MinotariWallet.Displayed.Changes

set_option autoImplicit false

/-! # What every new transaction has

The processor builds its new transactions in three ways: for a coinbase, for an output with or
without inputs, and for an input. What all of these have, every new transaction has. -/

namespace MinotariWallet

open Exec Removal

namespace DisplayedTransactionProcessor

variable (ext : Externals) (std : StdOrder) (proc : DisplayedTransactionProcessor)
  (accumulator : BlockEventAccumulator)

/-! ## The builders -/

/-- A transaction that a builder makes of a change at this height of an output with this hash. -/
structure MadeFrom (height : Nat) (hash : FixedHash) (tx : DisplayedTransaction) : Prop where
  id : tx.id = ext.newDeterministic proc.viewKey hash
  blockHeight : tx.blockchain.blockHeight = accumulator.height
  confirmations : tx.blockchain.confirmations = (proc.calculateStatusAndConfirmations height).2
  status : tx.status = (proc.calculateStatusAndConfirmations height).1
  outputs : ∀ output ∈ tx.details.outputs, output.hash = hash

theorem coinbaseTransaction_madeFrom (change : BalanceChange × DetectedOutput) :
    Yields (proc.coinbaseTransaction ext accumulator change)
      (MadeFrom ext proc accumulator change.2.height change.2.output.outputHash) := by
  unfold coinbaseTransaction DisplayedTransactionBuilder.creditsAndDebits
  dsimp only
  split <;> exact .ok ⟨rfl, rfl, rfl, rfl, fun _ h => List.mem_singleton.mp h ▸ rfl⟩

theorem transferTransaction_madeFrom (change : BalanceChange × DetectedOutput)
    (txInputs : List TransactionInput) (debitValue : MicroMinotari) :
    Yields (proc.transferTransaction ext accumulator change txInputs debitValue)
      (MadeFrom ext proc accumulator change.2.height change.2.output.outputHash) := by
  unfold transferTransaction DisplayedTransactionBuilder.creditsAndDebits
  dsimp only
  split <;> exact .ok ⟨rfl, rfl, rfl, rfl, fun _ h => List.mem_singleton.mp h ▸ rfl⟩

theorem spentTransaction_madeFrom (change : BalanceChange × SpentInput) :
    Yields (proc.spentTransaction ext accumulator change)
      (MadeFrom ext proc accumulator change.2.minedInBlockHeight
        change.2.output.outputHash) := by
  unfold spentTransaction DisplayedTransactionBuilder.creditsAndDebits
  dsimp only
  split <;> exact .ok ⟨rfl, rfl, rfl, rfl, fun _ h => nomatch h⟩

/-! ## The new transactions -/

/-- The three builders make transactions with `P` of the changes of the block. -/
structure Builds (P : DisplayedTransaction → Prop) : Prop where
  coinbase : ∀ change ∈ accumulator.creditBalanceChanges,
    Yields (proc.coinbaseTransaction ext accumulator change) P
  transfer : ∀ change ∈ accumulator.creditBalanceChanges, ∀ txInputs debitValue,
    Yields (proc.transferTransaction ext accumulator change txInputs debitValue) P
  spent : ∀ change ∈ accumulator.debitBalanceChanges,
    Yields (proc.spentTransaction ext accumulator change) P

variable {ext std proc accumulator} {P : DisplayedTransaction → Prop}
  {outputs : List (BalanceChange × DetectedOutput)} {inputs : List (BalanceChange × SpentInput)}

theorem processSolution_built (h : Builds ext proc accumulator P)
    (houtputs : outputs ⊆ accumulator.creditBalanceChanges) (st : SearchState)
    (hst : ∀ tx ∈ st.result, P tx) (solution : Nat × List Nat) :
    Yields (proc.processSolution ext accumulator inputs outputs st solution)
      (fun st' => ∀ tx ∈ st'.result, P tx) := by
  unfold processSolution
  refine .bind (P := fun _ => True) (fun _ _ => trivial) (fun spent _ => ?_)
  dsimp only
  cases hget : outputs[solution.1]? with
  | none => exact .error _
  | some change =>
      dsimp only
      split
      · exact .error _
      · split
        · exact .ok hst
        · refine .bind (h.transfer change (houtputs (List.mem_of_getElem? hget)) _ _)
            (fun tx htx => .ok (fun tx' htx' => ?_))
          rcases List.mem_append.mp htx' with htx' | htx'
          · exact hst tx' htx'
          · exact List.mem_singleton.mp htx' ▸ htx

theorem searchInputs_built (h : Builds ext proc accumulator P)
    (houtputs : outputs ⊆ accumulator.creditBalanceChanges)
    (hinputs : inputs ⊆ accumulator.debitBalanceChanges) :
    Yields (proc.searchInputs ext std accumulator inputs outputs) (fun txs => ∀ tx ∈ txs, P tx) := by
  unfold searchInputs
  refine .bind (P := fun st => ∀ tx ∈ st.result, P tx)
    (.foldlM (fun st hst solution _ => processSolution_built h houtputs st hst solution)
      (by intro tx htx; cases htx)) (fun st hst => ?_)
  refine .bind (P := fun rest => rest ⊆ inputs) ?_ (fun rest hrest => ?_)
  · refine .bind (takeOut_yields (Q := fun _ => True) (fun x _ _ => fun _ _ => trivial))
      (fun r hr => .ok hr.1)
  · refine .bind (P := fun txs => ∀ tx ∈ txs, P tx) ?_ (fun unmatched hunmatched => .ok ?_)
    · unfold handleUnmatchedInputsOutputs
      refine .bind (.mapM (Q := P) (fun index _ => ?_)) (fun received hreceived => ?_)
      · unfold unmatchedOutput
        split
        · exact .error _
        · next change hget =>
            exact h.transfer change (houtputs (List.mem_of_getElem? hget)) _ _
      · refine .bind (.mapM (fun change hchange => h.spent change (hinputs (hrest hchange))))
          (fun spent hspent => .ok ?_)
        exact fun tx htx => (List.mem_append.mp htx).elim (hreceived tx) (hspent tx)
    · exact fun tx htx => (List.mem_append.mp htx).elim (hst tx) (hunmatched tx)

/-- What the builders give every transaction, every new transaction of the block has. -/
theorem createNewUpdatedDisplayTransactions_built (h : Builds ext proc accumulator P)
    (current : List DisplayedTransaction) :
    Yields (proc.createNewUpdatedDisplayTransactions ext std accumulator current)
      (fun r => ∀ tx ∈ r.2, P tx) := by
  unfold createNewUpdatedDisplayTransactions
  have hcredits : (proc.matchCredits current accumulator.creditBalanceChanges []).2 ⊆
      accumulator.creditBalanceChanges := by
    rw [matchCredits, matchChanges_unmatched]
    exact List.filter_subset_self _
  have hdebits : Sql.orderBy (fun change : BalanceChange × SpentInput =>
      (change.2.output.value : Int)) (proc.matchDebits current accumulator.debitBalanceChanges
        (proc.matchCredits current accumulator.creditBalanceChanges []).1).2 ⊆
      accumulator.debitBalanceChanges := by
    rw [matchDebits, matchChanges_unmatched]
    exact List.Subset.trans (Sql.perm_orderBy _ _).subset (List.filter_subset_self _)
  dsimp only
  refine .bind (takeOut_yields (fun c hc _ => h.coinbase c (hcredits hc))) (fun first hfirst => ?_)
  refine .bind (takeOut_yields
    (fun c hc _ => h.transfer c (hcredits (hfirst.1 hc)) [] 0)) (fun second hsecond => ?_)
  refine .bind (searchInputs_built h
    (List.Subset.trans hsecond.1 (List.Subset.trans hfirst.1 hcredits)) hdebits)
    (fun found hfound => .ok ?_)
  intro tx htx
  rcases List.mem_append.mp htx with htx | htx
  · exact (List.mem_append.mp htx).elim (hfirst.2 tx) (hsecond.2 tx)
  · exact hfound tx htx

end DisplayedTransactionProcessor

open DisplayedTransactionProcessor

section Changes

variable {bp : BlockProcessor} {accountId : AccountId} {block : BlockScanResult} {db : Db}
  {acc : BlockEventAccumulator}

theorem BlockChanges.creditHeight
    (h : BlockChanges bp accountId block db block.walletOutputs block.inputs acc)
    {change : BalanceChange × DetectedOutput} (hchange : change ∈ acc.creditBalanceChanges) :
    change.2.height = block.height := by
  have hmem := List.mem_map_of_mem (f := (·.2)) hchange
  rw [h.credits] at hmem
  obtain ⟨w, -, hw⟩ := List.mem_map.mp hmem
  rw [← hw]

/-- An update is a stored transaction that knows a change of the block, at the block's height. -/
theorem BlockChanges.mem_updates
    (h : BlockChanges bp accountId block db block.walletOutputs block.inputs acc)
    {proc : DisplayedTransactionProcessor} {current : List DisplayedTransaction}
    {tx : DisplayedTransaction} (htx : tx ∈ updates proc acc current) :
    ∃ stored ∈ current, ∃ effectiveDate, tx = proc.updatedBy stored block.height effectiveDate := by
  rcases List.mem_append.mp htx with hmem | hmem
  · obtain ⟨change, hchange, hsome⟩ := List.mem_filterMap.mp hmem
    obtain ⟨stored, hfind, rfl⟩ := Option.map_eq_some_iff.mp hsome
    dsimp only
    rw [h.creditHeight hchange]
    exact ⟨stored, List.mem_of_find?_eq_some hfind, _, rfl⟩
  · obtain ⟨change, hchange, hsome⟩ := List.mem_filterMap.mp hmem
    obtain ⟨stored, hfind, rfl⟩ := Option.map_eq_some_iff.mp hsome
    dsimp only
    rw [(h.minedInBlock change hchange).2]
    exact ⟨stored, List.mem_of_find?_eq_some hfind, _, rfl⟩

end Changes

end MinotariWallet
