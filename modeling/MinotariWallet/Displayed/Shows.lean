import Mathlib.Algebra.BigOperators.Group.List.Basic
import Mathlib.Data.List.Perm.Subperm
import MinotariWallet.Displayed.Processor

set_option autoImplicit false

/-! # What the transactions of a block show

The changes of a block pass through five stages, each of which takes some of them out of the lists
and shows them. Nothing is said about which stage shows a change: the transactions of a stage show
the changes it takes, and the stages together take all of them. -/

namespace MinotariWallet

open Exec Removal

abbrev Credit := BalanceChange × DetectedOutput
abbrev Debit := BalanceChange × SpentInput

def DisplayedTransaction.outputHashes (tx : DisplayedTransaction) : List FixedHash :=
  tx.details.outputs.map (·.hash)

def DisplayedTransaction.inputHashes (tx : DisplayedTransaction) : List FixedHash :=
  tx.details.inputs.map (·.outputHash)

theorem DisplayedTransaction.hasOutput_eq_true {tx : DisplayedTransaction} {hash : FixedHash} :
    tx.hasOutput hash = true ↔ hash ∈ tx.outputHashes := by
  simp [hasOutput, outputHashes]

theorem DisplayedTransaction.hasInput_eq_true {tx : DisplayedTransaction} {hash : FixedHash} :
    tx.hasInput hash = true ↔ hash ∈ tx.inputHashes := by
  simp [hasInput, inputHashes]

/-- The payment references are those of the transaction's block. -/
def DisplayedTransaction.PayrefsOfBlock (ext : Externals) (tx : DisplayedTransaction) : Prop :=
  tx.details.sentPayrefs =
    tx.details.sentOutputHashes.map (ext.generatePaymentReference tx.blockchain.blockHash)

/-- The transaction shows these changes and no others. -/
structure Shows (ext : Externals) (tx : DisplayedTransaction) (credits : List Credit)
    (debits : List Debit) : Prop where
  outputs : tx.outputHashes = credits.map (·.2.output.outputHash)
  inputs : tx.inputHashes = debits.map (·.2.output.outputHash)
  totalCredit : tx.details.totalCredit = (credits.map (·.1.balanceCredit)).sum
  totalDebit : tx.details.totalDebit = (debits.map (·.1.balanceDebit)).sum
  blockHash : tx.blockchain.blockHash ∈
    credits.map (·.2.minedInBlockHash) ++ debits.map (·.2.minedInBlock)
  payrefs : tx.PayrefsOfBlock ext

/-- The transactions together show these changes, each once. -/
structure ShowsAll (ext : Externals) (txs : List DisplayedTransaction) (credits : List Credit)
    (debits : List Debit) : Prop where
  outputs : (txs.flatMap (·.outputHashes)).Perm (credits.map (·.2.output.outputHash))
  inputs : (txs.flatMap (·.inputHashes)).Perm (debits.map (·.2.output.outputHash))
  totalCredit : (txs.map (·.details.totalCredit)).sum = (credits.map (·.1.balanceCredit)).sum
  totalDebit : (txs.map (·.details.totalDebit)).sum = (debits.map (·.1.balanceDebit)).sum
  blockHash : ∀ tx ∈ txs, tx.blockchain.blockHash ∈
    credits.map (·.2.minedInBlockHash) ++ debits.map (·.2.minedInBlock)
  payrefs : ∀ tx ∈ txs, tx.PayrefsOfBlock ext

section ShowsAll

variable {ext : Externals} {txs txs' : List DisplayedTransaction} {tx : DisplayedTransaction}
  {credits credits' : List Credit} {debits debits' : List Debit}

theorem ShowsAll.nil : ShowsAll ext [] [] [] where
  outputs := .nil
  inputs := .nil
  totalCredit := rfl
  totalDebit := rfl
  blockHash := by simp
  payrefs := by simp

theorem ShowsAll.append (h : ShowsAll ext txs credits debits)
    (h' : ShowsAll ext txs' credits' debits') :
    ShowsAll ext (txs ++ txs') (credits ++ credits') (debits ++ debits') where
  outputs := by simpa using h.outputs.append h'.outputs
  inputs := by simpa using h.inputs.append h'.inputs
  totalCredit := by simp [h.totalCredit, h'.totalCredit]
  totalDebit := by simp [h.totalDebit, h'.totalDebit]
  blockHash := by
    intro tx htx
    have hmem : tx.blockchain.blockHash ∈
        (credits.map (·.2.minedInBlockHash) ++ debits.map (·.2.minedInBlock)) ++
          (credits'.map (·.2.minedInBlockHash) ++ debits'.map (·.2.minedInBlock)) := by
      rcases List.mem_append.mp htx with htx | htx
      · exact List.mem_append_left _ (h.blockHash tx htx)
      · exact List.mem_append_right _ (h'.blockHash tx htx)
    simp only [List.map_append, List.mem_append] at hmem ⊢
    tauto
  payrefs := by
    intro tx htx
    rcases List.mem_append.mp htx with htx | htx
    · exact h.payrefs tx htx
    · exact h'.payrefs tx htx

theorem ShowsAll.perm (h : ShowsAll ext txs credits debits) (hcredits : credits.Perm credits')
    (hdebits : debits.Perm debits') : ShowsAll ext txs credits' debits' where
  outputs := h.outputs.trans (hcredits.map _)
  inputs := h.inputs.trans (hdebits.map _)
  totalCredit := h.totalCredit.trans (hcredits.map _).sum_eq
  totalDebit := h.totalDebit.trans (hdebits.map _).sum_eq
  blockHash := fun tx htx =>
    ((hcredits.map _).append (hdebits.map _)).mem_iff.mp (h.blockHash tx htx)
  payrefs := h.payrefs

theorem Shows.all (h : Shows ext tx credits debits) : ShowsAll ext [tx] credits debits where
  outputs := by simp [h.outputs]
  inputs := by simp [h.inputs]
  totalCredit := by simp [h.totalCredit]
  totalDebit := by simp [h.totalDebit]
  blockHash := by simpa using h.blockHash
  payrefs := by simpa using h.payrefs

/-- One transaction for each output. -/
theorem ShowsAll.of_credits (h : List.Forall₂ (fun c tx => Shows ext tx [c] []) credits txs) :
    ShowsAll ext txs credits [] := by
  induction h with
  | nil => exact .nil
  | cons hhead _ ih => exact hhead.all.append ih

end ShowsAll

/-! ## The transactions that are built -/

/-- With the amounts and the block given, nothing is missing. -/
theorem build_blockchainInfo (ext : Externals) (b : DisplayedTransactionBuilder)
    (credit debit : MicroMinotari) (height : Nat) (hash : FixedHash) (timestamp : Timestamp)
    (confirmations : Nat) (id : TxId) :
    ∃ tx, ((b.creditsAndDebits credit debit).blockchainInfo height hash timestamp
        confirmations).build ext id = .ok tx ∧
      tx.details.outputs = b.outputs ∧ tx.details.inputs = b.inputs ∧
      tx.details.totalCredit = credit ∧ tx.details.totalDebit = debit ∧
      tx.blockchain.blockHash = hash ∧ tx.PayrefsOfBlock ext := by
  unfold DisplayedTransactionBuilder.creditsAndDebits
  by_cases hdebit : 0 < debit
  · rw [if_pos hdebit]
    exact ⟨_, rfl, rfl, rfl, rfl, rfl, rfl, rfl⟩
  · rw [if_neg hdebit]
    exact ⟨_, rfl, rfl, rfl, rfl, rfl, rfl, rfl⟩

namespace DisplayedTransactionProcessor

variable (ext : Externals) {std : StdOrder} (proc : DisplayedTransactionProcessor)
  (accumulator : BlockEventAccumulator)

theorem coinbaseTransaction_shows (change : Credit) :
    ∃ tx, proc.coinbaseTransaction ext accumulator change = .ok tx ∧
      Shows ext tx [change] [] := by
  obtain ⟨tx, hbuild, houtputs, hinputs, hcredit, hdebit, hhash, hpayrefs⟩ :=
    build_blockchainInfo ext {
      accountId := some accumulator.accountId
      source := some .coinbase
      status := some (proc.calculateStatusAndConfirmations change.2.height).1
      outputs := [change.2.toTransactionOutput .coinbase]
      message := (MemoInfo.fromOutput change.2.output).parsed
      memoHex := (MemoInfo.fromOutput change.2.output).hex
      outputType := some .coinbase
      coinbaseExtra := some change.2.output.coinbaseExtra }
      change.1.balanceCredit 0 accumulator.height change.2.minedInBlockHash change.1.effectiveDate
      (proc.calculateStatusAndConfirmations change.2.height).2
      (ext.newDeterministic proc.viewKey change.2.output.outputHash)
  refine ⟨tx, hbuild, ?_, ?_, ?_, ?_, ?_, hpayrefs⟩
  · simp [DisplayedTransaction.outputHashes, houtputs, DetectedOutput.toTransactionOutput]
  · simp [DisplayedTransaction.inputHashes, hinputs]
  · simpa using hcredit
  · simpa using hdebit
  · simp [hhash]

/-- The transaction of a change output, or of one that was received. -/
theorem transferTransaction_shows (change : Credit) {debits : List Debit}
    {txInputs : List TransactionInput} {debitValue : MicroMinotari}
    (hinputs : txInputs = debits.map (·.2.toTransactionInput))
    (hvalue : debitValue = (debits.map (·.1.balanceDebit)).sum) :
    ∃ tx, proc.transferTransaction ext accumulator change txInputs debitValue = .ok tx ∧
      Shows ext tx [change] debits := by
  obtain ⟨tx, hbuild, houtputs, hinputs', hcredit, hdebit, hhash, hpayrefs⟩ :=
    build_blockchainInfo ext {
      accountId := some accumulator.accountId
      source := some .transfer
      status := some (proc.calculateStatusAndConfirmations change.2.height).1
      counterpartyAddress := change.2.output.paymentId.senderAddress
      fee := change.2.output.paymentId.fee
      message := (MemoInfo.fromOutput change.2.output).parsed
      memoHex := (MemoInfo.fromOutput change.2.output).hex
      outputs := [change.2.toTransactionOutput .standard]
      outputType := some .standard
      sentOutputHashes := change.2.output.paymentId.sentHashes.getD []
      inputs := txInputs }
      change.1.balanceCredit debitValue accumulator.height change.2.minedInBlockHash
      change.1.effectiveDate (proc.calculateStatusAndConfirmations change.2.height).2
      (ext.newDeterministic proc.viewKey change.2.output.outputHash)
  refine ⟨tx, hbuild, ?_, ?_, ?_, ?_, ?_, hpayrefs⟩
  · simp [DisplayedTransaction.outputHashes, houtputs, DetectedOutput.toTransactionOutput]
  · simp [DisplayedTransaction.inputHashes, hinputs', hinputs, SpentInput.toTransactionInput]
  · simpa using hcredit
  · exact hdebit.trans hvalue
  · simp [hhash]

theorem receivedTransaction_shows (change : Credit) :
    ∃ tx, proc.receivedTransaction ext accumulator change = .ok tx ∧ Shows ext tx [change] [] :=
  transferTransaction_shows ext proc accumulator change rfl rfl

theorem spentTransaction_shows (change : Debit) :
    ∃ tx, proc.spentTransaction ext accumulator change = .ok tx ∧ Shows ext tx [] [change] := by
  obtain ⟨tx, hbuild, houtputs, hinputs, hcredit, hdebit, hhash, hpayrefs⟩ :=
    build_blockchainInfo ext {
      accountId := some accumulator.accountId
      source := some .transfer
      status := some (proc.calculateStatusAndConfirmations change.2.minedInBlockHeight).1
      inputs := [change.2.toTransactionInput] }
      0 change.1.balanceDebit accumulator.height change.2.minedInBlock change.1.effectiveDate
      (proc.calculateStatusAndConfirmations change.2.minedInBlockHeight).2
      (ext.newDeterministic proc.viewKey change.2.output.outputHash)
  refine ⟨tx, hbuild, ?_, ?_, ?_, ?_, ?_, hpayrefs⟩
  · simp [DisplayedTransaction.outputHashes, houtputs]
  · simp [DisplayedTransaction.inputHashes, hinputs, SpentInput.toTransactionInput]
  · simpa using hcredit
  · simpa using hdebit
  · simp [hhash]

/-! ## The solver -/

theorem candidates_sublist {nums : List MicroMinotari} {target : MicroMinotari} {pool : List Nat}
    {found : List Nat} (h : candidates nums target pool = some found) : found.Sublist pool := by
  induction pool generalizing found with
  | nil =>
      cases h
      exact .refl _
  | cons index pool ih =>
      simp only [candidates, Option.bind_eq_bind, Option.bind_eq_some_iff] at h
      obtain ⟨n, -, rest, hrest, h⟩ := h
      split at h
      · cases h
        exact (ih hrest).cons_cons _
      · cases h
        exact (ih hrest).cons _

/-- The elements that an assignment sets are taken in their order. -/
theorem assigned_sublist (sorted : List Nat) (assignment : List Bool) :
    (((sorted.zip assignment).filter (·.2)).map (·.1)).Sublist sorted := by
  induction sorted generalizing assignment with
  | nil => exact .refl _
  | cons i sorted ih =>
      cases assignment with
      | nil => simp
      | cons taken assignment =>
          cases taken with
          | false => exact (ih assignment).cons _
          | true => exact (ih assignment).cons_cons _

theorem nodup_of_subperm {l l' : List Nat} (h : l.Subperm l') (hnodup : l'.Nodup) : l.Nodup := by
  obtain ⟨m, hperm, hsub⟩ := h
  exact hperm.nodup_iff.mp (hnodup.sublist hsub)

/-- Whatever the search for a subset decides, it uses indices of the pool, each once. -/
theorem backtrackSubset_subperm {pool : List Nat} {nums : List MicroMinotari}
    {target : MicroMinotari} {used : List Nat}
    (h : backtrackSubset std pool nums target = some used) : used.Subperm pool := by
  simp only [backtrackSubset, Option.bind_eq_bind, Option.bind_eq_some_iff] at h
  obtain ⟨unsorted, hunsorted, total, -, h⟩ := h
  split at h
  · cases h
  split at h
  · cases h
    exact (assigned_sublist _ _).subperm.trans
      ((std.sort_perm _ unsorted).subperm.trans (candidates_sublist hunsorted).subperm)
  · cases h

theorem solveTargets_fst {nums : List MicroMinotari} {targets : List (MicroMinotari × Nat)}
    {remaining : List Nat} :
    (solveTargets std nums targets remaining).map (·.1) = targets.map (·.2) := by
  induction targets generalizing remaining with
  | nil => rfl
  | cons target targets ih => simp [solveTargets, ih]

/-- No index is used for two targets. -/
theorem solveTargets_subperm {nums : List MicroMinotari} {targets : List (MicroMinotari × Nat)}
    {remaining : List Nat} (hnodup : remaining.Nodup) :
    ((solveTargets std nums targets remaining).flatMap (·.2)).Subperm remaining := by
  induction targets generalizing remaining with
  | nil => exact List.nil_subperm
  | cons target targets ih =>
      rw [solveTargets, List.flatMap_cons]
      generalize hused : (backtrackSubset std remaining nums target.1).getD [] = used
      have hpool : used.Subperm remaining := by
        cases hsubset : backtrackSubset std remaining nums target.1 with
        | none =>
            rw [hsubset] at hused
            exact hused ▸ List.nil_subperm
        | some found =>
            rw [hsubset] at hused
            exact hused ▸ backtrackSubset_subperm hsubset
      have hlater := ih (hnodup.filter (fun i => !used.contains i))
      have hdisjoint : ∀ i ∈ used, i ∉ (solveTargets std nums targets
          (remaining.filter (fun i => !used.contains i))).flatMap (·.2) := by
        intro i hi hlate
        have := List.mem_filter.mp (hlater.subset hlate)
        simp [hi] at this
      refine List.subperm_of_subset (List.nodup_append.mpr ⟨?_, ?_, ?_⟩) ?_
      · exact nodup_of_subperm hpool hnodup
      · exact nodup_of_subperm hlater (hnodup.filter _)
      · intro i hi j hj hij
        exact hdisjoint i hi (hij ▸ hj)
      · intro i hi
        rcases List.mem_append.mp hi with hi | hi
        · exact hpool.subset hi
        · exact (List.mem_filter.mp (hlater.subset hi)).1

/-! ## The search -/

section Search

variable {inputs : List Debit} {outputs : List Credit}

theorem solutionInputs_ok {indices : List Nat} (h : ∀ i ∈ indices, i < inputs.length) :
    solutionInputs inputs indices = .ok ((pick inputs indices).map (·.2)) := by
  induction indices with
  | nil => rfl
  | cons index indices ih =>
      have hindex : index < inputs.length := h index List.mem_cons_self
      have hget : inputs[index]? = some inputs[index] := List.getElem?_eq_getElem hindex
      have hrest := ih (fun i hi => h i (List.mem_cons_of_mem _ hi))
      simp only [solutionInputs, hget, hrest, pick_cons hget]
      rfl

/-- What has been shown once some solutions are processed. -/
structure Searched (ext : Externals) (inputs : List Debit) (outputs : List Credit)
    (start : List Nat) (solutions : List (Nat × List Nat)) (st : SearchState) : Prop where
  shown : ∃ accepted, (accepted ++ st.unmatchedIndex).Perm (start ++ solutions.map (·.1)) ∧
    ShowsAll ext st.result (pick outputs accepted) (pick inputs st.usedInputs)
  used : st.usedInputs.Sublist (solutions.flatMap (·.2))

/-- A solution becomes a transaction if the values fit, and leaves its output unmatched and its
    inputs unused if they do not. -/
theorem processSolution_searched {start : List Nat} {solutions : List (Nat × List Nat)}
    {st : SearchState} {solution : Nat × List Nat}
    (h : Searched ext inputs outputs start solutions st)
    (hvalues : ∀ d ∈ inputs, d.1.balanceDebit = d.2.output.value)
    (hdetails : ∃ change, outputs[solution.1]? = some change ∧
      change.2.output.paymentId.transactionInfoDetails.isSome)
    (hindices : ∀ i ∈ solution.2, i < inputs.length) :
    ∃ st', proc.processSolution ext accumulator inputs outputs st solution = .ok st' ∧
      Searched ext inputs outputs start (solutions ++ [solution]) st' := by
  obtain ⟨change, hchange, hsome⟩ := hdetails
  obtain ⟨⟨sender, amount⟩, hinfo⟩ := Option.isSome_iff_exists.mp hsome
  obtain ⟨accepted, haccepted, hshows⟩ := h.shown
  simp only [processSolution, solutionInputs_ok hindices, hchange, hinfo, bind, Except.bind]
  by_cases hsend : totalSend change.2 amount ≠
      (((pick inputs solution.2).map (·.2)).map (·.output.value)).sum
  · rw [if_pos hsend]
    refine ⟨_, rfl, ⟨accepted, ?_, hshows⟩, ?_⟩
    · rw [List.map_append, ← List.append_assoc, ← List.append_assoc]
      exact haccepted.append_right _
    · rw [List.flatMap_append]
      exact h.used.trans (List.sublist_append_left _ _)
  · rw [if_neg hsend]
    have hvalue : (((pick inputs solution.2).map (·.2)).map (·.output.value)).sum =
        ((pick inputs solution.2).map (·.1.balanceDebit)).sum := by
      rw [List.map_map]
      congr 1
      refine List.map_congr_left (fun d hd => ?_)
      obtain ⟨i, -, hi⟩ := List.mem_filterMap.mp hd
      exact (hvalues d (List.mem_of_getElem? hi)).symm
    have hinputs : ((pick inputs solution.2).map (·.2)).map (·.toTransactionInput) =
        (pick inputs solution.2).map (·.2.toTransactionInput) := List.map_map
    obtain ⟨tx, htx, hshow⟩ :=
      transferTransaction_shows ext proc accumulator change hinputs hvalue
    rw [htx]
    refine ⟨_, rfl, ⟨accepted ++ [solution.1], ?_, ?_⟩, ?_⟩
    · rw [List.map_append, ← List.append_assoc]
      refine List.Perm.trans ?_ (haccepted.append_right _)
      rw [List.append_assoc, List.append_assoc]
      exact List.perm_append_comm.append_left _
    · rw [pick_append, pick_append, pick_cons hchange, pick_nil]
      exact hshows.append hshow.all
    · rw [List.flatMap_append]
      exact h.used.append (by simp)

theorem processSolutions_searched {start : List Nat} {done solutions : List (Nat × List Nat)}
    {st : SearchState} (h : Searched ext inputs outputs start done st)
    (hvalues : ∀ d ∈ inputs, d.1.balanceDebit = d.2.output.value)
    (hdetails : ∀ s ∈ solutions, ∃ change, outputs[s.1]? = some change ∧
      change.2.output.paymentId.transactionInfoDetails.isSome)
    (hindices : ∀ s ∈ solutions, ∀ i ∈ s.2, i < inputs.length) :
    ∃ st', solutions.foldlM (proc.processSolution ext accumulator inputs outputs) st = .ok st' ∧
      Searched ext inputs outputs start (done ++ solutions) st' := by
  induction solutions generalizing done st with
  | nil => exact ⟨st, rfl, by simpa using h⟩
  | cons solution solutions ih =>
      obtain ⟨st₁, hstep, h₁⟩ := processSolution_searched ext proc accumulator h
        hvalues (hdetails _ List.mem_cons_self) (hindices _ List.mem_cons_self)
      obtain ⟨st₂, hrun, h₂⟩ := ih h₁ (fun s hs => hdetails s (List.mem_cons_of_mem _ hs))
        (fun s hs => hindices s (List.mem_cons_of_mem _ hs))
      refine ⟨st₂, ?_, by simpa using h₂⟩
      rw [List.foldlM_cons, hstep]
      exact hrun

/-- The used inputs are taken out and no others. -/
theorem removeUsed_ok {used : List Nat} (hnodup : used.Nodup)
    (hlt : ∀ i ∈ used, i < inputs.length) :
    ∃ rest, removeUsed inputs used = .ok rest ∧ inputs.Perm (pick inputs used ++ rest) := by
  have hperm : (used.insertionSort (· ≥ ·)).Perm used := List.perm_insertionSort _ used
  have hsorted : (used.insertionSort (· ≥ ·)).Pairwise (· > ·) := by
    have hle : (used.insertionSort (· ≥ ·)).Pairwise (· ≥ ·) := List.pairwise_insertionSort _ used
    refine (hle.and (hperm.nodup_iff.mpr hnodup)).imp (fun hij => ?_)
    exact lt_of_le_of_ne hij.1 (Ne.symm hij.2)
  obtain ⟨rest, hrun, hrest⟩ := takeOut_descending
    (ProcessorError.panicked "removal index should be < len") hsorted (fun i hi => hlt i (hperm.mem_iff.mp hi))
  refine ⟨rest, ?_, hrest.trans ((pick_perm hperm).append_right _)⟩
  rw [removeUsed, hrun]
  rfl

/-- The rest is shown one by one. -/
theorem handleUnmatched_shows {unmatched : List Nat}
    (hlt : ∀ i ∈ unmatched, i < outputs.length) (rest : List Debit) :
    ∃ txs, proc.handleUnmatchedInputsOutputs ext accumulator rest outputs unmatched = .ok txs ∧
      ShowsAll ext txs (pick outputs unmatched) rest := by
  have hreceived : ∃ received,
      unmatched.mapM (proc.unmatchedOutput ext accumulator outputs) = .ok received ∧
      ShowsAll ext received (pick outputs unmatched) [] := by
    induction unmatched with
    | nil => exact ⟨[], rfl, .nil⟩
    | cons index unmatched ih =>
        have hindex : index < outputs.length := hlt index List.mem_cons_self
        have hget : outputs[index]? = some outputs[index] := List.getElem?_eq_getElem hindex
        obtain ⟨txs, hrun, htxs⟩ := ih (fun i hi => hlt i (List.mem_cons_of_mem _ hi))
        obtain ⟨tx, hreceived, htx⟩ := receivedTransaction_shows ext proc accumulator
          outputs[index]
        refine ⟨tx :: txs, ?_, ?_⟩
        · simp only [List.mapM_cons, unmatchedOutput, hget, hreceived, hrun]
          rfl
        · rw [pick_cons hget]
          exact htx.all.append htxs
  have hspent : ∃ spent, rest.mapM (proc.spentTransaction ext accumulator) = .ok spent ∧
      ShowsAll ext spent [] rest := by
    induction rest with
    | nil => exact ⟨[], rfl, .nil⟩
    | cons change rest ih =>
        obtain ⟨txs, hrun, htxs⟩ := ih
        obtain ⟨tx, hspent, htx⟩ := spentTransaction_shows ext proc accumulator change
        refine ⟨tx :: txs, ?_, htx.all.append htxs⟩
        simp only [List.mapM_cons, hspent, hrun]
        rfl
  obtain ⟨received, hreceived, hshowsReceived⟩ := hreceived
  obtain ⟨spent, hspent, hshowsSpent⟩ := hspent
  refine ⟨received ++ spent, ?_, ?_⟩
  · unfold handleUnmatchedInputsOutputs
    rw [hreceived, hspent]
    rfl
  · simpa using hshowsReceived.append hshowsSpent

/-- The targets and the outputs without a target are all outputs, each once. -/
theorem targets_perm (outputs : List Credit) :
    ((outputs.zipIdx.filter (fun (change, _) =>
        change.2.output.paymentId.transactionInfoDetails.isNone)).map (·.2) ++
      (outputs.zipIdx.filterMap (fun (change, i) =>
        change.2.output.paymentId.transactionInfoDetails.map (fun details =>
          (totalSend change.2 details.2, i)))).map (·.2)).Perm (List.range outputs.length) := by
  have hsplit : ∀ l : List (Credit × Nat),
      ((l.filter (fun (change, _) =>
          change.2.output.paymentId.transactionInfoDetails.isNone)).map (·.2) ++
        (l.filterMap (fun (change, i) =>
          change.2.output.paymentId.transactionInfoDetails.map (fun details =>
            (totalSend change.2 details.2, i)))).map (·.2)).Perm (l.map (·.2)) := by
    intro l
    induction l with
    | nil => exact .nil
    | cons x l ih =>
        cases hx : x.1.2.output.paymentId.transactionInfoDetails with
        | none => simpa [hx] using ih.cons x.2
        | some details =>
            simp only [List.filter_cons, List.filterMap_cons, hx, Option.map_some, List.map_cons]
            simpa using (List.perm_middle).trans (ih.cons x.2)
  have hrange : outputs.zipIdx.map (·.2) = List.range outputs.length := by
    simp [List.range_eq_range']
  exact hrange ▸ hsplit outputs.zipIdx

/-- The search shows every output and every input it is given. -/
theorem searchInputs_shows (hvalues : ∀ d ∈ inputs, d.1.balanceDebit = d.2.output.value) :
    ∃ txs, proc.searchInputs ext std accumulator inputs outputs = .ok txs ∧
      ShowsAll ext txs outputs inputs := by
  unfold searchInputs
  have htargets := targets_perm outputs
  generalize hstart : (outputs.zipIdx.filter (fun (change, _) =>
    change.2.output.paymentId.transactionInfoDetails.isNone)).map (·.2) = start at htargets ⊢
  have hdetails : ∀ t ∈ outputs.zipIdx.filterMap (fun (change, i) =>
      change.2.output.paymentId.transactionInfoDetails.map (fun details =>
        (totalSend change.2 details.2, i))),
      ∃ change, outputs[t.2]? = some change ∧
        change.2.output.paymentId.transactionInfoDetails.isSome := by
    intro t ht
    obtain ⟨⟨change, i⟩, hmem, hsome⟩ := List.mem_filterMap.mp ht
    obtain ⟨details, hdetails, rfl⟩ := Option.map_eq_some_iff.mp hsome
    exact ⟨change, List.mem_zipIdx_iff_getElem?.mp hmem, by simp [hdetails]⟩
  generalize outputs.zipIdx.filterMap (fun (change, i) =>
    change.2.output.paymentId.transactionInfoDetails.map (fun details =>
      (totalSend change.2 details.2, i))) = targets at htargets hdetails ⊢
  -- the solutions: one for each target, with indices of inputs, each used once
  generalize hsolutions : solveBackTrack std inputs targets = solutions
  have hfst : (solutions.map (·.1)).Perm (targets.map (·.2)) := by
    rw [← hsolutions, solveBackTrack, solveTargets_fst]
    exact (std.sort_perm _ targets).map _
  have hused : (solutions.flatMap (·.2)).Subperm (List.range inputs.length) := by
    rw [← hsolutions, solveBackTrack, List.length_map]
    exact solveTargets_subperm List.nodup_range
  have hlt : ∀ i ∈ solutions.flatMap (·.2), i < inputs.length :=
    fun i hi => List.mem_range.mp (hused.subset hi)
  have hbegin : Searched ext inputs outputs start [] { unmatchedIndex := start } :=
    ⟨⟨[], by simp, .nil⟩, .refl _⟩
  obtain ⟨st, hrun, hst⟩ := processSolutions_searched ext proc accumulator hbegin hvalues
    (fun s hs => by
      obtain ⟨t, ht, heq⟩ := List.mem_map.mp (hfst.subset (List.mem_map_of_mem hs))
      exact heq ▸ hdetails t ht)
    (fun s hs i hi => hlt i (List.mem_flatMap.mpr ⟨s, hs, hi⟩))
  obtain ⟨⟨accepted, haccepted, hshown⟩, hsub⟩ := hst
  rw [List.nil_append] at haccepted hsub
  -- what was not accepted is still to be shown
  have hall : (accepted ++ st.unmatchedIndex).Perm (List.range outputs.length) :=
    haccepted.trans ((hfst.append_left start).trans htargets)
  obtain ⟨rest, hrest, hinputs⟩ := removeUsed_ok
    ((nodup_of_subperm hused List.nodup_range).sublist hsub)
    (fun i hi => hlt i (hsub.subset hi))
  obtain ⟨unmatched, hunmatched, hshows⟩ := handleUnmatched_shows ext proc accumulator
    (fun i hi => List.mem_range.mp (hall.subset (List.mem_append_right _ hi))) rest
  refine ⟨st.result ++ unmatched, ?_, ?_⟩
  · simp only [hsolutions, hrun, bind, Except.bind, hrest, hunmatched]
    rfl
  · refine (hshown.append hshows).perm ?_ hinputs.symm
    rw [← pick_append]
    exact (pick_perm hall).trans (.of_eq pick_range)

end Search

/-! ## The whole block -/

section Match

variable {χ : Type} {knows : DisplayedTransaction → χ → Bool}
  {update : DisplayedTransaction → χ → DisplayedTransaction} {current : List DisplayedTransaction}

theorem matchChanges_unmatched {changes : List χ} {updated : List DisplayedTransaction} :
    (matchChanges knows update current changes updated).2 =
      changes.filter (fun c => !current.any (knows · c)) := by
  induction changes generalizing updated with
  | nil => rfl
  | cons change changes ih =>
      cases hfind : current.find? (knows · change) with
      | none =>
          have hnone : current.any (knows · change) = false := by
            simpa using List.find?_eq_none.mp hfind
          simp [matchChanges, hfind, hnone, ih]
      | some tx =>
          have hknows : knows tx change = true :=
            List.find?_some (p := fun tx => knows tx change) hfind
          have hsome : current.any (knows · change) = true :=
            List.any_eq_true.mpr ⟨tx, List.mem_of_find?_eq_some hfind, hknows⟩
          simp [matchChanges, hfind, hsome, ih]

/-- The updates that the changes make, in their order. -/
def updatesOf (knows : DisplayedTransaction → χ → Bool)
    (update : DisplayedTransaction → χ → DisplayedTransaction)
    (current : List DisplayedTransaction) (changes : List χ) : List DisplayedTransaction :=
  changes.filterMap (fun c => (current.find? (knows · c)).map (update · c))

theorem matchChanges_updated {changes : List χ} {updated : List DisplayedTransaction} :
    (matchChanges knows update current changes updated).1 =
      (updatesOf knows update current changes).foldl insertUpdated updated := by
  induction changes generalizing updated with
  | nil => rfl
  | cons change changes ih =>
      cases hfind : current.find? (knows · change) with
      | none => simpa [matchChanges, updatesOf, hfind] using ih
      | some tx => simpa [matchChanges, updatesOf, hfind] using ih

end Match

/-- The updates of the block: for each change that a stored transaction knows, the clone of the
    first such transaction. -/
def updates (current : List DisplayedTransaction) : List DisplayedTransaction :=
  updatesOf (fun tx (c : Credit) => tx.hasOutput c.2.output.outputHash)
      (fun tx c => proc.updatedBy tx c.2.height c.1.effectiveDate) current
      accumulator.creditBalanceChanges ++
    updatesOf (fun tx (d : Debit) => tx.hasInput d.2.output.outputHash)
      (fun tx d => proc.updatedBy tx d.2.minedInBlockHeight d.1.effectiveDate) current
      accumulator.debitBalanceChanges

/-- The credits that no stored transaction knows. -/
def newCredits (current : List DisplayedTransaction) (credits : List Credit) : List Credit :=
  credits.filter (fun c => !current.any (·.hasOutput c.2.output.outputHash))

/-- The debits that no stored transaction knows. -/
def newDebits (current : List DisplayedTransaction) (debits : List Debit) : List Debit :=
  debits.filter (fun d => !current.any (·.hasInput d.2.output.outputHash))

/-- The stored transactions that know a change are updated, and the new transactions show the other
    changes. -/
theorem createNewUpdatedDisplayTransactions_shows (current : List DisplayedTransaction)
    (hvalues : ∀ d ∈ accumulator.debitBalanceChanges, d.1.balanceDebit = d.2.output.value) :
    ∃ new, proc.createNewUpdatedDisplayTransactions ext std accumulator current =
        .ok (std.intoValues ((updates proc accumulator current).foldl insertUpdated []), new) ∧
      ShowsAll ext new (newCredits current accumulator.creditBalanceChanges)
        (newDebits current accumulator.debitBalanceChanges) := by
  unfold createNewUpdatedDisplayTransactions
  have hdebits : (proc.matchDebits current accumulator.debitBalanceChanges
      (proc.matchCredits current accumulator.creditBalanceChanges []).1) =
      ((updates proc accumulator current).foldl insertUpdated [],
        newDebits current accumulator.debitBalanceChanges) := by
    refine Prod.ext ?_ matchChanges_unmatched
    rw [updates, List.foldl_append]
    refine matchChanges_updated.trans ?_
    rw [matchCredits, matchChanges_updated]
  have hcredits : (proc.matchCredits current accumulator.creditBalanceChanges []).2 =
      newCredits current accumulator.creditBalanceChanges := matchChanges_unmatched
  simp only [hdebits, hcredits]
  generalize newCredits current accumulator.creditBalanceChanges = credits
  have hsorted := Sql.perm_orderBy (fun d : Debit => (d.2.output.value : Int))
    (newDebits current accumulator.debitBalanceChanges)
  generalize Sql.orderBy (fun d : Debit => (d.2.output.value : Int))
    (newDebits current accumulator.debitBalanceChanges) = debits at hsorted ⊢
  have hdebitValues : ∀ d ∈ debits, d.1.balanceDebit = d.2.output.value := fun d hd =>
    hvalues d (List.mem_filter.mp (hsorted.subset hd)).1
  -- the coinbases, the received outputs, and what is left for the search
  obtain ⟨coinbases, hcoinbases, hshowCoinbases⟩ := takeOut_reverse_range
    (ProcessorError.panicked "should exist") (p := fun c : Credit => c.2.output.isCoinbase)
    (fun c _ => coinbaseTransaction_shows ext proc accumulator c) credits []
  obtain ⟨received, hreceived, hshowReceived⟩ := takeOut_reverse_range
    (ProcessorError.panicked "should exist")
    (p := fun c : Credit => c.2.output.paymentId.transactionInfoDetails.isNone)
    (fun c _ => receivedTransaction_shows ext proc accumulator c)
    (credits.filter (fun c => !c.2.output.isCoinbase)) []
  rw [List.append_nil, List.append_nil] at hcoinbases hreceived
  obtain ⟨found, hfound, hshowFound⟩ := @searchInputs_shows ext std proc accumulator debits
    ((credits.filter (fun c => !c.2.output.isCoinbase)).filter (fun c =>
      !c.2.output.paymentId.transactionInfoDetails.isNone)) hdebitValues
  refine ⟨coinbases ++ received ++ found, ?_, ?_⟩
  · simp only [hcoinbases, hreceived, hfound, bind, Except.bind]
    rfl
  · have hshows := ((ShowsAll.of_credits hshowCoinbases).append
      (ShowsAll.of_credits hshowReceived)).append hshowFound
    refine hshows.perm ?_ (by simpa using hsorted)
    -- each stage takes the outputs that pass its test
    have hfirst : (credits.filter (·.2.output.isCoinbase)).reverse.Perm
        (credits.filter (·.2.output.isCoinbase)) := List.reverse_perm _
    have hsecond := List.reverse_perm ((credits.filter (fun c => !c.2.output.isCoinbase)).filter
      (·.2.output.paymentId.transactionInfoDetails.isNone))
    rw [List.append_assoc]
    refine (hfirst.append ((hsecond.append_right _).trans ?_)).trans
      (List.filter_append_perm (fun c : Credit => c.2.output.isCoinbase) credits)
    exact List.filter_append_perm _ _

end DisplayedTransactionProcessor

end MinotariWallet
