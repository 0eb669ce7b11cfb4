import MinotariWallet.Displayed.Shows
import MinotariWallet.Ledger.Machine

set_option autoImplicit false

/-! # Each change is shown once

A change that a stored transaction knows updates that transaction and is in no new one; every other
change is in exactly one new transaction. -/

namespace MinotariWallet

open DisplayedTransactionProcessor

/-! ## The updated transactions -/

/-- The transaction is the last of the list with its id. -/
def LastOfId (txs : List DisplayedTransaction) (tx : DisplayedTransaction) : Prop :=
  ∃ before after, txs = before ++ tx :: after ∧ ∀ later ∈ after, later.id ≠ tx.id

theorem LastOfId.mem {txs : List DisplayedTransaction} {tx : DisplayedTransaction}
    (h : LastOfId txs tx) : tx ∈ txs := by
  obtain ⟨before, after, rfl, -⟩ := h
  exact List.mem_append_right _ List.mem_cons_self

theorem lastOfId_concat {txs : List DisplayedTransaction} {last tx : DisplayedTransaction} :
    LastOfId (txs ++ [last]) tx ↔ tx = last ∨ (LastOfId txs tx ∧ last.id ≠ tx.id) := by
  constructor
  · rintro ⟨before, after, heq, hafter⟩
    induction after using List.reverseRecOn with
    | nil => exact Or.inl (List.append_inj_right' heq rfl |> List.singleton_inj.mp).symm
    | append_singleton after x _ =>
        rw [← List.cons_append, ← List.append_assoc] at heq
        obtain ⟨htxs, hlast⟩ := List.append_inj' heq rfl
        cases hlast
        exact Or.inr ⟨⟨before, after, htxs, fun later hl =>
          hafter later (List.mem_append_left _ hl)⟩, hafter last (by simp)⟩
  · rintro (rfl | ⟨⟨before, after, rfl, hafter⟩, hne⟩)
    · exact ⟨txs, [], rfl, by simp⟩
    · refine ⟨before, after ++ [last], by simp, fun later hl => ?_⟩
      rcases List.mem_append.mp hl with hl | hl
      · exact hafter later hl
      · rw [List.mem_singleton.mp hl]
        exact hne

/-- Of several updates of one id the last stays. -/
theorem mem_foldl_insertUpdated {txs : List DisplayedTransaction} {tx : DisplayedTransaction} :
    tx ∈ txs.foldl insertUpdated [] ↔ LastOfId txs tx := by
  induction txs using List.reverseRecOn with
  | nil => simp [LastOfId]
  | append_singleton txs last ih =>
      rw [List.foldl_append, lastOfId_concat, ← ih]
      simp only [List.foldl_cons, List.foldl_nil, insertUpdated, List.mem_append, List.mem_filter,
        List.mem_singleton, bne_iff_ne, ne_eq, eq_comm (a := tx.id)]
      tauto

theorem nodup_foldl_insertUpdated (txs : List DisplayedTransaction) :
    ((txs.foldl insertUpdated []).map (·.id)).Nodup := by
  induction txs using List.reverseRecOn with
  | nil => simp
  | append_singleton txs last ih =>
      rw [List.foldl_append, List.foldl_cons, List.foldl_nil, insertUpdated, List.map_append,
        List.nodup_append]
      refine ⟨ih.sublist (List.filter_sublist.map _), by simp, fun id hid id' hid' => ?_⟩
      obtain ⟨tx, htx, rfl⟩ := List.mem_map.mp hid
      have hne := (List.mem_filter.mp htx).2
      simp only [List.map_cons, List.map_nil, List.mem_singleton] at hid'
      rw [hid']
      simpa using hne

/-! ## Counting -/

/-- What occurs once in the lists of all occurs in the list of exactly one. -/
theorem countP_eq_count {α β : Type} [DecidableEq β] {l : List α} {f : α → List β} {q : α → Bool}
    {b : β} (hq : ∀ x, q x = true ↔ b ∈ f x) (hle : (l.flatMap f).count b ≤ 1) :
    l.countP q = (l.flatMap f).count b := by
  induction l with
  | nil => rfl
  | cons x l ih =>
      rw [List.flatMap_cons, List.count_append] at hle ⊢
      rw [List.countP_cons, ih (by omega)]
      by_cases hx : q x = true
      · have hpos : 0 < (f x).count b := List.count_pos_iff.mpr ((hq x).mp hx)
        rw [if_pos hx]
        omega
      · have hzero : (f x).count b = 0 := List.count_eq_zero.mpr (fun h => hx ((hq x).mpr h))
        rw [if_neg hx, hzero]
        omega

/-- The keys that the filter keeps occur once, the others not at all. -/
theorem count_filter_key {χ : Type} {changes : List χ} {hash : χ → FixedHash} {keep : χ → Bool}
    (hnodup : (changes.map hash).Nodup) {c : χ} (hc : c ∈ changes) :
    ((changes.filter keep).map hash).count (hash c) = if keep c then 1 else 0 := by
  have hsub : ((changes.filter keep).map hash).Nodup :=
    hnodup.sublist (List.filter_sublist.map _)
  by_cases hkeep : keep c = true
  · rw [if_pos hkeep]
    exact List.count_eq_one_of_mem hsub (List.mem_map_of_mem (List.mem_filter.mpr ⟨hc, hkeep⟩))
  · rw [if_neg hkeep]
    refine List.count_eq_zero.mpr (fun hmem => hkeep ?_)
    obtain ⟨c', hc', heq⟩ := List.mem_map.mp hmem
    obtain ⟨hc', hkeep'⟩ := List.mem_filter.mp hc'
    exact List.inj_on_of_nodup_map hnodup hc' hc heq ▸ hkeep'

/-! ## The block -/

/-- How the changes of the block are shown, given the transactions that are stored. -/
structure ShownOnce (proc : DisplayedTransactionProcessor) (accumulator : BlockEventAccumulator)
    (current updated new : List DisplayedTransaction) : Prop where
  /-- Only the first transactions that know a change are updated; the last update of an id counts. -/
  updated_iff : ∀ tx, tx ∈ updated ↔ LastOfId (updates proc accumulator current) tx
  updated_nodup : (updated.map (·.id)).Nodup
  credits : ∀ c ∈ accumulator.creditBalanceChanges,
    new.countP (·.hasOutput c.2.output.outputHash) =
      if current.any (·.hasOutput c.2.output.outputHash) then 0 else 1
  debits : ∀ d ∈ accumulator.debitBalanceChanges,
    new.countP (·.hasInput d.2.output.outputHash) =
      if current.any (·.hasInput d.2.output.outputHash) then 0 else 1
  totalCredit : (new.map (·.details.totalCredit)).sum =
    ((newCredits current accumulator.creditBalanceChanges).map (·.2.output.value)).sum
  totalDebit : (new.map (·.details.totalDebit)).sum =
    ((newDebits current accumulator.debitBalanceChanges).map (·.2.output.value)).sum

/-- Each change of a block is shown exactly once. -/
theorem createNewUpdatedDisplayTransactions_shownOnce (ext : Externals) (std : StdOrder)
    (proc : DisplayedTransactionProcessor) (accumulator : BlockEventAccumulator)
    (current : List DisplayedTransaction)
    (hcreditValues : ∀ c ∈ accumulator.creditBalanceChanges,
      c.1.balanceCredit = c.2.output.value)
    (hdebitValues : ∀ d ∈ accumulator.debitBalanceChanges, d.1.balanceDebit = d.2.output.value)
    (hcredits : (accumulator.creditBalanceChanges.map (·.2.output.outputHash)).Nodup)
    (hdebits : (accumulator.debitBalanceChanges.map (·.2.output.outputHash)).Nodup) :
    ∃ updated new, proc.createNewUpdatedDisplayTransactions ext std accumulator current =
        .ok (updated, new) ∧ ShownOnce proc accumulator current updated new := by
  obtain ⟨new, hrun, hshows⟩ :=
    @createNewUpdatedDisplayTransactions_shows ext std proc accumulator current hdebitValues
  have hvalues := std.values_perm ((updates proc accumulator current).foldl insertUpdated [])
  refine ⟨_, new, hrun, ⟨fun tx => ?_, ?_, fun c hc => ?_, fun d hd => ?_, ?_, ?_⟩⟩
  · exact hvalues.mem_iff.trans mem_foldl_insertUpdated
  · exact (hvalues.map _).nodup_iff.mpr (nodup_foldl_insertUpdated _)
  · have hcount : (new.flatMap (·.outputHashes)).count c.2.output.outputHash =
        if !current.any (·.hasOutput c.2.output.outputHash) then 1 else 0 :=
      (hshows.outputs.count_eq _).trans (count_filter_key hcredits hc)
    rw [countP_eq_count (fun tx => DisplayedTransaction.hasOutput_eq_true)
      (by rw [hcount]; split <;> omega), hcount]
    cases current.any (·.hasOutput c.2.output.outputHash) <;> rfl
  · have hcount : (new.flatMap (·.inputHashes)).count d.2.output.outputHash =
        if !current.any (·.hasInput d.2.output.outputHash) then 1 else 0 :=
      (hshows.inputs.count_eq _).trans (count_filter_key hdebits hd)
    rw [countP_eq_count (fun tx => DisplayedTransaction.hasInput_eq_true)
      (by rw [hcount]; split <;> omega), hcount]
    cases current.any (·.hasInput d.2.output.outputHash) <;> rfl
  · rw [hshows.totalCredit]
    congr 1
    exact List.map_congr_left (fun c hc => hcreditValues c (List.mem_filter.mp hc).1)
  · rw [hshows.totalDebit]
    congr 1
    exact List.map_congr_left (fun d hd => hdebitValues d (List.mem_filter.mp hd).1)

/-! ## A block with all kinds of changes -/

def creditAtTen (output : WalletOutput) : Credit :=
  (makeBalanceChangeForOutput 1 1 0 10 output 0, ⟨10, 100, output⟩)

def debitAtTen (output : WalletOutput) : Debit :=
  (makeBalanceChangeForInput 1 1 output.value ⟨10, 100, [], [], 0⟩ 0, ⟨100, 10, 1, output⟩)

/-- A coinbase, a payment received, a change of 40 from the input of 100 that sent 60, the output of
    a stored transaction, and an input without a change. -/
def mixedBlock : BlockEventAccumulator where
  accountId := 1
  height := 10
  blockHash := 100
  creditBalanceChanges := [
    creditAtTen { outputHash := 601, value := 7, isCoinbase := true },
    creditAtTen { outputHash := 602, value := 5 },
    creditAtTen ⟨603, 40, false, false, [], { transactionInfoDetails := some (9, 60) }⟩,
    creditAtTen { outputHash := 604, value := 1 }]
  debitBalanceChanges := [
    debitAtTen { outputHash := 501, value := 100 },
    debitAtTen { outputHash := 502, value := 30 }]

/-- The transaction that output 604 was recorded with. -/
def storedTransfer : DisplayedTransaction where
  id := 50
  direction := .outgoing
  source := .oneSided
  status := .pending
  amount := 9
  message := none
  counterparty := none
  blockchain := ⟨0, 0, 0, 0⟩
  fee := none
  details := {
    accountId := 1
    totalCredit := 1
    totalDebit := 10
    inputs := []
    outputs := [⟨604, 1, .unspent, 0, 0, .standard, true⟩]
    memoHex := none
    sentOutputHashes := [605]
    sentPayrefs := [605] }

theorem mixedBlock_shownOnce :
    ∃ updated new, (DisplayedTransactionProcessor.mk 10 3 7).createNewUpdatedDisplayTransactions
        plainEnv.toExternals .stable mixedBlock [storedTransfer] = .ok (updated, new) ∧
      ShownOnce ⟨10, 3, 7⟩ mixedBlock [storedTransfer] updated new :=
  createNewUpdatedDisplayTransactions_shownOnce plainEnv.toExternals .stable ⟨10, 3, 7⟩ mixedBlock
    [storedTransfer] (by decide) (by decide) (by decide) (by decide)

end MinotariWallet
