import MinotariWallet.Ledger.Available
import MinotariWallet.Ledger.ConfirmedOnce
import MinotariWallet.Lib.Owners
import MinotariWallet.Transactions.AppendOnly
import Mathlib.Data.List.Dedup

set_option autoImplicit false

/-! # Accounts in one ledger

All accounts share the tables, and many statements select by hash, by id or by request only. What
keeps the accounts apart is that no reference leaves its account: `SameAccount` says so for every
foreign key, and with it a statement for one account finds rows of that account only. `Leaves A` is
then that the rows of the others stay as they are. Tombstones are left out of that: the confirmation
of an output is written to every row with its hash. -/

namespace MinotariWallet

open Sql Exec

/-- Every reference of the ledger leads to a row of the same account. -/
structure Ledger.SameAccount (L : Ledger) : Prop where
  hashes : UniqueHashes L.outputs
  inputs : L.inputs.Refers (fun i => some i.outputId) InputRow.accountId OutputRow.accountId
    L.outputs.toTable
  credits : L.balanceChanges.Refers BalanceChangeRow.causedByOutputId BalanceChangeRow.accountId
    OutputRow.accountId L.outputs.toTable
  debits : L.balanceChanges.Refers BalanceChangeRow.causedByInputId BalanceChangeRow.accountId
    InputRow.accountId L.inputs.toTable
  reversals : L.balanceChanges.Refers BalanceChangeRow.reversalOfBalanceChangeId
    BalanceChangeRow.accountId BalanceChangeRow.accountId L.balanceChanges.toTable
  locks : L.outputs.Refers OutputRow.lockedByRequestId OutputRow.accountId
    PendingTransactionRow.accountId L.pendingTransactions
  completed : L.completedTransactions.Refers (fun c => some c.pendingTxId)
    CompletedTransactionRow.accountId PendingTransactionRow.accountId L.pendingTransactions

/-- What an account has in the ledger. -/
structure AccountRows where
  outputs : List OutputRow
  inputs : List InputRow
  balanceChanges : List BalanceChangeRow
  scannedTipBlocks : List ScannedTipBlockRow
  pendingTransactions : List PendingTransactionRow
  completedTransactions : List CompletedTransactionRow
deriving DecidableEq

def Ledger.rowsOf (L : Ledger) (accountId : AccountId) : AccountRows where
  outputs := L.outputs.select (fun o => o.accountId == accountId && o.active)
  inputs := L.inputs.select (fun i => i.accountId == accountId)
  balanceChanges := L.balanceChanges.select (fun b => b.accountId == accountId)
  scannedTipBlocks := L.scannedTipBlocks.select (fun b => b.accountId == accountId)
  pendingTransactions := L.pendingTransactions.select (fun p => p.accountId == accountId)
  completedTransactions := L.completedTransactions.select (fun c => c.accountId == accountId)

/-- The rows of every other account are the same. -/
def Ledger.Leaves (accountId : AccountId) (L L' : Ledger) : Prop :=
  ∀ other, other ≠ accountId → L'.rowsOf other = L.rowsOf other

variable {L L' L'' : Ledger} {accountId : AccountId}

/-! ## References -/

theorem UniqueHashes.of_ages {outputs outputs' : AutoTable OutputRow} (h : UniqueHashes outputs)
    (hrows : ∀ o' ∈ outputs'.rows, ∃ o ∈ outputs.rows, o.Ages o') : UniqueHashes outputs' := by
  intro o₁' ho₁' o₂' ho₂' hactive₁ hactive₂ hhash
  obtain ⟨o₁, ho₁, hage₁⟩ := hrows o₁' ho₁'
  obtain ⟨o₂, ho₂, hage₂⟩ := hrows o₂' ho₂'
  have heq : o₁ = o₂ := h o₁ ho₁ o₂ ho₂ (hage₁.active hactive₁) (hage₂.active hactive₂)
    (hage₁.columns.2.2.symm.trans (hhash.trans hage₂.columns.2.2))
  have hid : o₁'.id = o₂'.id := by rw [hage₁.columns.1, hage₂.columns.1, heq]
  exact outputs'.eq_of_key_eq ho₁' ho₂' hid

/-- A ledger that has aged keeps its references in their accounts when every row of it is an old one
    with its references, or refers to its own account. -/
theorem Ledger.SameAccount.ages (h : L.SameAccount) (hages : L.Ages L')
    (hhashes : UniqueHashes L'.outputs)
    (hinputs : ∀ i' ∈ L'.inputs.rows, (∃ i ∈ L.inputs.rows, i.Ages i') ∨
      L'.outputs.Owns OutputRow.accountId i'.outputId i'.accountId)
    (hchanges : ∀ b' ∈ L'.balanceChanges.rows, (∃ b ∈ L.balanceChanges.rows, b.Ages b') ∨
      (∀ id ∈ b'.causedByOutputId, L'.outputs.Owns OutputRow.accountId id b'.accountId) ∧
      (∀ id ∈ b'.causedByInputId, L'.inputs.Owns InputRow.accountId id b'.accountId) ∧
      (∀ id ∈ b'.reversalOfBalanceChangeId,
        L'.balanceChanges.Owns BalanceChangeRow.accountId id b'.accountId))
    (hlocks : ∀ o' ∈ L'.outputs.rows,
      (∃ o ∈ L.outputs.rows, o.Ages o' ∧ o'.lockedByRequestId = o.lockedByRequestId) ∨
      ∀ req ∈ o'.lockedByRequestId,
        L'.pendingTransactions.Owns PendingTransactionRow.accountId req o'.accountId)
    (hcompleted : ∀ c' ∈ L'.completedTransactions.rows,
      (∃ c ∈ L.completedTransactions.rows, c.Ages c') ∨
      L'.pendingTransactions.Owns PendingTransactionRow.accountId c'.pendingTxId c'.accountId) :
    L'.SameAccount where
  hashes := hhashes
  inputs := h.inputs.step hages.outputs (fun _ _ hage => hage.columns.2.1)
    (fun _ _ hage => ⟨congrArg some hage.columns.1, hage.columns.2⟩)
    (fun i' hi' => (hinputs i' hi').imp id (fun hown id hid => by cases hid; exact hown))
  credits := h.credits.step hages.outputs (fun _ _ hage => hage.columns.2.1)
    (fun _ _ hage => ⟨hage.columns.1, hage.columns.2.2.2⟩)
    (fun b' hb' => (hchanges b' hb').imp id (fun hnew => hnew.1))
  debits := h.debits.step hages.inputs (fun _ _ hage => hage.columns.2)
    (fun _ _ hage => ⟨hage.columns.2.1, hage.columns.2.2.2⟩)
    (fun b' hb' => (hchanges b' hb').imp id (fun hnew => hnew.2.1))
  reversals := h.reversals.step hages.balanceChanges (fun _ _ hage => hage.columns.2.2.2)
    (fun _ _ hage => hage.columns.2.2) (fun b' hb' => (hchanges b' hb').imp id (fun hnew => hnew.2.2))
  locks := h.locks.step (S := fun o o' => o.Ages o' ∧ o'.lockedByRequestId = o.lockedByRequestId)
    hages.pending (fun _ _ hage => hage.accountId) (fun _ _ hage => ⟨hage.2, hage.1.columns.2.1⟩)
    hlocks
  completed := h.completed.step hages.pending (fun _ _ hage => hage.accountId)
    (fun _ _ hage => ⟨congrArg some hage.columns.1, hage.columns.2⟩)
    (fun c' hc' => (hcompleted c' hc').imp id (fun hown id hid => by cases hid; exact hown))

namespace Ledger.SameAccount

/-- Outputs that age, with locks for pending transactions of their accounts. -/
theorem ageOutputs (h : L.SameAccount) {outputs : AutoTable OutputRow}
    (hkept : L.outputs.Retains OutputRow.Ages outputs.toTable)
    (hrows : ∀ o' ∈ outputs.rows, ∃ o ∈ L.outputs.rows, o.Ages o' ∧
      (o'.lockedByRequestId = o.lockedByRequestId ∨ ∀ req ∈ o'.lockedByRequestId,
        L.pendingTransactions.Owns PendingTransactionRow.accountId req o'.accountId)) :
    Ledger.SameAccount { L with outputs } := by
  have hages : ∀ o' ∈ outputs.rows, ∃ o ∈ L.outputs.rows, o.Ages o' := by
    intro o' ho'
    obtain ⟨o, ho, hage, -⟩ := hrows o' ho'
    exact ⟨o, ho, hage⟩
  refine h.ages (.setOutputs hkept) (h.hashes.of_ages hages)
    (fun i hi => Or.inl ⟨i, hi, Std.Refl.refl i⟩) (fun b hb => Or.inl ⟨b, hb, Std.Refl.refl b⟩)
    (fun o' ho' => ?_) (fun c hc => Or.inl ⟨c, hc, Std.Refl.refl c⟩)
  obtain ⟨o, ho, hage, hlock | hown⟩ := hrows o' ho'
  · exact Or.inl ⟨o, ho, hage, hlock⟩
  · exact Or.inr hown

/-- An `UPDATE` of outputs that leaves their locks alone. -/
theorem updateOutputs (h : L.SameAccount) {p : OutputRow → Bool} {f : OutputRow → OutputRow}
    (hage : ∀ o, p o = true → o.Ages (f o))
    (hlock : ∀ o, (f o).lockedByRequestId = o.lockedByRequestId) (hf : ∀ o, key (f o) = key o) :
    Ledger.SameAccount { L with outputs := L.outputs.updateWhere p f hf } := by
  refine h.ageOutputs (Table.retains_updateWhere _ hage hf) (fun o' ho' => ?_)
  obtain ⟨o, ho, rfl⟩ := (AutoTable.mem_updateWhere hf).mp ho'
  by_cases hp : p o = true
  · simp only [hp, if_true]
    exact ⟨o, ho, hage o hp, Or.inl (hlock o)⟩
  · simp only [hp]
    exact ⟨o, ho, Std.Refl.refl o, Or.inl rfl⟩

theorem insertOutput (h : L.SameAccount) {m : Id → OutputRow}
    (hnew : ∀ o ∈ L.outputs.rows, o.active = true → ∀ k, o.outputHash ≠ (m k).outputHash)
    (hfree : (m (L.outputs.seq + 1)).lockedByRequestId = none) (hmk : ∀ k, key (m k) = k) :
    Ledger.SameAccount { L with outputs := L.outputs.insert m hmk } := by
  refine h.ages (.setOutputs (Table.retains_insert _ hmk)) (h.hashes.insert hmk hnew)
    (fun i hi => Or.inl ⟨i, hi, Std.Refl.refl i⟩) (fun b hb => Or.inl ⟨b, hb, Std.Refl.refl b⟩)
    (fun o' ho' => ?_) (fun c hc => Or.inl ⟨c, hc, Std.Refl.refl c⟩)
  rcases (AutoTable.mem_insert hmk).mp ho' with ho | rfl
  · exact Or.inl ⟨o', ho, Std.Refl.refl o', rfl⟩
  · exact Or.inr (fun req hreq => by rw [hfree] at hreq; cases hreq)

theorem insertInput (h : L.SameAccount) {m : Id → InputRow} (hmk : ∀ k, key (m k) = k)
    (hown : L.outputs.Owns OutputRow.accountId (m (L.inputs.seq + 1)).outputId
      (m (L.inputs.seq + 1)).accountId) :
    Ledger.SameAccount { L with inputs := L.inputs.insert m hmk } := by
  refine h.ages (.setInputs (Table.retains_insert _ hmk)) h.hashes (fun i hi => ?_)
    (fun b hb => Or.inl ⟨b, hb, Std.Refl.refl b⟩)
    (fun o ho => Or.inl ⟨o, ho, Std.Refl.refl o, rfl⟩)
    (fun c hc => Or.inl ⟨c, hc, Std.Refl.refl c⟩)
  rcases (AutoTable.mem_insert hmk).mp hi with hi | rfl
  · exact Or.inl ⟨i, hi, Std.Refl.refl i⟩
  · exact Or.inr hown

theorem updateInputs (h : L.SameAccount) {p : InputRow → Bool} {f : InputRow → InputRow}
    (hage : ∀ i, p i = true → i.Ages (f i)) (hf : ∀ i, key (f i) = key i) :
    Ledger.SameAccount { L with inputs := L.inputs.updateWhere p f hf } :=
  h.ages (.setInputs (Table.retains_updateWhere _ hage hf)) h.hashes
    (fun i hi => Or.inl (Table.exists_of_mem_updateWhere (t := L.inputs.toTable) hage hf i hi))
    (fun b hb => Or.inl ⟨b, hb, Std.Refl.refl b⟩)
    (fun o ho => Or.inl ⟨o, ho, Std.Refl.refl o, rfl⟩)
    (fun c hc => Or.inl ⟨c, hc, Std.Refl.refl c⟩)

theorem insertBalanceChange (h : L.SameAccount) {m : Id → BalanceChangeRow}
    (hmk : ∀ k, key (m k) = k)
    (hnew : (∀ id ∈ (m (L.balanceChanges.seq + 1)).causedByOutputId,
        L.outputs.Owns OutputRow.accountId id (m (L.balanceChanges.seq + 1)).accountId) ∧
      (∀ id ∈ (m (L.balanceChanges.seq + 1)).causedByInputId,
        L.inputs.Owns InputRow.accountId id (m (L.balanceChanges.seq + 1)).accountId) ∧
      (∀ id ∈ (m (L.balanceChanges.seq + 1)).reversalOfBalanceChangeId,
        L.balanceChanges.Owns BalanceChangeRow.accountId id
          (m (L.balanceChanges.seq + 1)).accountId)) :
    Ledger.SameAccount { L with balanceChanges := L.balanceChanges.insert m hmk } := by
  have hkept : L.balanceChanges.Retains BalanceChangeRow.Ages
    (L.balanceChanges.insert m hmk).toTable := Table.retains_insert _ hmk
  refine h.ages (.setBalanceChanges hkept) h.hashes
    (fun i hi => Or.inl ⟨i, hi, Std.Refl.refl i⟩) (fun b hb => ?_)
    (fun o ho => Or.inl ⟨o, ho, Std.Refl.refl o, rfl⟩)
    (fun c hc => Or.inl ⟨c, hc, Std.Refl.refl c⟩)
  rcases (AutoTable.mem_insert hmk).mp hb with hb | rfl
  · exact Or.inl ⟨b, hb, Std.Refl.refl b⟩
  · exact Or.inr ⟨hnew.1, hnew.2.1, fun id hid =>
      (hnew.2.2 id hid).retained hkept (fun _ _ hage => hage.columns.2.2.2)⟩

theorem updateBalanceChanges (h : L.SameAccount) {p : BalanceChangeRow → Bool}
    {f : BalanceChangeRow → BalanceChangeRow} (hage : ∀ b, p b = true → b.Ages (f b))
    (hf : ∀ b, key (f b) = key b) :
    Ledger.SameAccount { L with balanceChanges := L.balanceChanges.updateWhere p f hf } :=
  h.ages (.setBalanceChanges (Table.retains_updateWhere _ hage hf)) h.hashes
    (fun i hi => Or.inl ⟨i, hi, Std.Refl.refl i⟩)
    (fun b hb =>
      Or.inl (Table.exists_of_mem_updateWhere (t := L.balanceChanges.toTable) hage hf b hb))
    (fun o ho => Or.inl ⟨o, ho, Std.Refl.refl o, rfl⟩)
    (fun c hc => Or.inl ⟨c, hc, Std.Refl.refl c⟩)

/-- Pending transactions that age, and new ones. -/
theorem setPending (h : L.SameAccount) {pendingTransactions : Table PendingTransactionRow}
    (hkept : L.pendingTransactions.Retains PendingTransactionRow.Ages pendingTransactions) :
    Ledger.SameAccount { L with pendingTransactions } :=
  h.ages (.setPending hkept) h.hashes (fun i hi => Or.inl ⟨i, hi, Std.Refl.refl i⟩)
    (fun b hb => Or.inl ⟨b, hb, Std.Refl.refl b⟩)
    (fun o ho => Or.inl ⟨o, ho, Std.Refl.refl o, rfl⟩)
    (fun c hc => Or.inl ⟨c, hc, Std.Refl.refl c⟩)

theorem setTips (h : L.SameAccount) (scannedTipBlocks : AutoTable ScannedTipBlockRow) :
    Ledger.SameAccount { L with scannedTipBlocks } :=
  ⟨h.hashes, h.inputs, h.credits, h.debits, h.reversals, h.locks, h.completed⟩

theorem setCompleted (h : L.SameAccount) {completedTransactions : Table CompletedTransactionRow}
    (hkept : L.completedTransactions.Retains CompletedTransactionRow.Ages completedTransactions)
    (hrows : ∀ c' ∈ completedTransactions.rows, (∃ c ∈ L.completedTransactions.rows, c.Ages c') ∨
      L.pendingTransactions.Owns PendingTransactionRow.accountId c'.pendingTxId c'.accountId) :
    Ledger.SameAccount { L with completedTransactions } :=
  h.ages (.setCompleted hkept) h.hashes (fun i hi => Or.inl ⟨i, hi, Std.Refl.refl i⟩)
    (fun b hb => Or.inl ⟨b, hb, Std.Refl.refl b⟩)
    (fun o ho => Or.inl ⟨o, ho, Std.Refl.refl o, rfl⟩) hrows

theorem updateCompleted (h : L.SameAccount) {p : CompletedTransactionRow → Bool}
    {f : CompletedTransactionRow → CompletedTransactionRow} (hage : ∀ c, p c = true → c.Ages (f c))
    (hf : ∀ c, key (f c) = key c) : Ledger.SameAccount { L with
      completedTransactions := L.completedTransactions.updateWhere p f hf } :=
  h.setCompleted (.updateWhere hage hf)
    (fun c hc => Or.inl (Table.exists_of_mem_updateWhere hage hf c hc))

end Ledger.SameAccount

/-! ## What other accounts see -/

namespace Ledger.Leaves

theorem refl (accountId : AccountId) (L : Ledger) : L.Leaves accountId L := fun _ _ => rfl

theorem trans (h : L.Leaves accountId L') (h' : L'.Leaves accountId L'') :
    L.Leaves accountId L'' :=
  fun other hne => (h' other hne).trans (h other hne)

/-- An `UPDATE` of outputs of the account and of tombstones. -/
theorem updateOutputs {p : OutputRow → Bool} {f : OutputRow → OutputRow}
    (hrows : ∀ o ∈ L.outputs.rows, p o = true → o.accountId = accountId ∨ o.active = false)
    (hage : ∀ o, p o = true → o.Ages (f o)) (hf : ∀ o, key (f o) = key o) :
    L.Leaves accountId { L with outputs := L.outputs.updateWhere p f hf } := by
  intro other hne
  have hselect : (L.outputs.updateWhere p f hf).select (fun o => o.accountId == other && o.active) =
      L.outputs.select (fun o => o.accountId == other && o.active) := by
    refine Table.select_updateWhere_outside (t := L.outputs.toTable) (fun o ho hp => ?_) hf
    have hcolumns := (hage o hp).columns
    rcases hrows o ho hp with hacc | hdel
    · simp [hcolumns.2.1, hacc, hne.symm]
    · simp [hdel, ((hage o hp).deleted hdel).1]
  simp only [rowsOf, hselect]

theorem insertOutput {m : Id → OutputRow}
    (hacc : (m (L.outputs.seq + 1)).accountId = accountId) (hmk : ∀ k, key (m k) = k) :
    L.Leaves accountId { L with outputs := L.outputs.insert m hmk } := by
  intro other hne
  have hselect : (L.outputs.insert m hmk).select (fun o => o.accountId == other && o.active) =
      L.outputs.select (fun o => o.accountId == other && o.active) :=
    Table.select_insert_outside (by simp [hacc, hne.symm]) hmk
  simp only [rowsOf, hselect]

theorem insertInput {m : Id → InputRow} (hacc : (m (L.inputs.seq + 1)).accountId = accountId)
    (hmk : ∀ k, key (m k) = k) :
    L.Leaves accountId { L with inputs := L.inputs.insert m hmk } := by
  intro other hne
  have hselect : (L.inputs.insert m hmk).select (fun i => i.accountId == other) =
      L.inputs.select (fun i => i.accountId == other) :=
    Table.select_insert_outside (by simp [hacc, hne.symm]) hmk
  simp only [rowsOf, hselect]

theorem updateInputs {p : InputRow → Bool} {f : InputRow → InputRow}
    (hrows : ∀ i ∈ L.inputs.rows, p i = true → i.accountId = accountId ∧ (f i).accountId = accountId)
    (hf : ∀ i, key (f i) = key i) :
    L.Leaves accountId { L with inputs := L.inputs.updateWhere p f hf } := by
  intro other hne
  have hselect : (L.inputs.updateWhere p f hf).select (fun i => i.accountId == other) =
      L.inputs.select (fun i => i.accountId == other) :=
    Table.select_updateWhere_outside (t := L.inputs.toTable)
      (fun i hi hp => by simp [hrows i hi hp, hne.symm]) hf
  simp only [rowsOf, hselect]

theorem insertBalanceChange {m : Id → BalanceChangeRow}
    (hacc : (m (L.balanceChanges.seq + 1)).accountId = accountId) (hmk : ∀ k, key (m k) = k) :
    L.Leaves accountId { L with balanceChanges := L.balanceChanges.insert m hmk } := by
  intro other hne
  have hselect : (L.balanceChanges.insert m hmk).select (fun b => b.accountId == other) =
      L.balanceChanges.select (fun b => b.accountId == other) :=
    Table.select_insert_outside (by simp [hacc, hne.symm]) hmk
  simp only [rowsOf, hselect]

theorem updateBalanceChanges {p : BalanceChangeRow → Bool}
    {f : BalanceChangeRow → BalanceChangeRow}
    (hrows : ∀ b ∈ L.balanceChanges.rows, p b = true →
      b.accountId = accountId ∧ (f b).accountId = accountId) (hf : ∀ b, key (f b) = key b) :
    L.Leaves accountId { L with balanceChanges := L.balanceChanges.updateWhere p f hf } := by
  intro other hne
  have hselect : (L.balanceChanges.updateWhere p f hf).select (fun b => b.accountId == other) =
      L.balanceChanges.select (fun b => b.accountId == other) :=
    Table.select_updateWhere_outside (t := L.balanceChanges.toTable)
      (fun b hb hp => by simp [hrows b hb hp, hne.symm]) hf
  simp only [rowsOf, hselect]

theorem setTips {scannedTipBlocks : AutoTable ScannedTipBlockRow}
    (hselect : ∀ other, other ≠ accountId →
      scannedTipBlocks.select (fun b => b.accountId == other) =
        L.scannedTipBlocks.select (fun b => b.accountId == other)) :
    L.Leaves accountId { L with scannedTipBlocks } := by
  intro other hne
  simp only [rowsOf, hselect other hne]

theorem updatePending {p : PendingTransactionRow → Bool}
    {f : PendingTransactionRow → PendingTransactionRow}
    (hrows : ∀ r ∈ L.pendingTransactions.rows, p r = true →
      r.accountId = accountId ∧ (f r).accountId = accountId) (hf : ∀ r, key (f r) = key r) :
    L.Leaves accountId { L with
      pendingTransactions := L.pendingTransactions.updateWhere p f hf } := by
  intro other hne
  have hselect : (L.pendingTransactions.updateWhere p f hf).select (fun r => r.accountId == other) =
      L.pendingTransactions.select (fun r => r.accountId == other) :=
    Table.select_updateWhere_outside (fun r hr hp => by simp [hrows r hr hp, hne.symm]) hf
  simp only [rowsOf, hselect]

theorem updateCompleted {p : CompletedTransactionRow → Bool}
    {f : CompletedTransactionRow → CompletedTransactionRow}
    (hrows : ∀ c ∈ L.completedTransactions.rows, p c = true →
      c.accountId = accountId ∧ (f c).accountId = accountId) (hf : ∀ c, key (f c) = key c) :
    L.Leaves accountId { L with
      completedTransactions := L.completedTransactions.updateWhere p f hf } := by
  intro other hne
  have hselect : (L.completedTransactions.updateWhere p f hf).select
      (fun c => c.accountId == other) =
      L.completedTransactions.select (fun c => c.accountId == other) :=
    Table.select_updateWhere_outside (fun c hc hp => by simp [hrows c hc hp, hne.symm]) hf
  simp only [rowsOf, hselect]

end Ledger.Leaves

/-- `get_balance` reads the rows of its account only. -/
theorem getBalance_of_leaves {db db' : Db} (h : db.ledger.Leaves accountId db'.ledger)
    {other : AccountId} (hne : other ≠ accountId) :
    (runOk (getBalance other) db').map (·.1) = (runOk (getBalance other) db).map (·.1) := by
  have hrows := h other hne
  have hchanges : db'.balanceChanges.select (fun b => b.accountId == other) =
      db.balanceChanges.select (fun b => b.accountId == other) :=
    congrArg AccountRows.balanceChanges hrows
  have hcounted : ∀ d : Db, d.outputs.select (fun o => o.accountId == other && o.active && !o.isBurn) =
      (d.outputs.select (fun o => o.accountId == other && o.active)).filter (fun o => !o.isBurn) := by
    intro d
    simp only [Table.select, List.filter_filter]
    exact List.filter_congr (fun o _ => Bool.and_comm _ _)
  have houtputs : db'.outputs.select (fun o => o.accountId == other && o.active && !o.isBurn) =
      db.outputs.select (fun o => o.accountId == other && o.active && !o.isBurn) := by
    rw [hcounted, hcounted]
    exact congrArg (List.filter _) (congrArg AccountRows.outputs hrows)
  have hagg : db'.getBalanceAggregatesForAccount other = db.getBalanceAggregatesForAccount other := by
    simp only [Db.getBalanceAggregatesForAccount, hchanges]
  have htotals : db'.getOutputTotalsForAccount other = db.getOutputTotalsForAccount other := by
    simp only [Db.getOutputTotalsForAccount, houtputs]
  rw [runOk_getBalance, runOk_getBalance, hagg, htotals]
  cases (db.getBalanceAggregatesForAccount other).toOption with
  | none => rfl
  | some agg => cases (db.getOutputTotalsForAccount other).toOption <;> rfl

/-! ## What an account does to its own rows -/

/-- The references are in their accounts, and the rows of the other accounts are as in `L₀`. -/
structure Ledger.Within (accountId : AccountId) (L₀ L : Ledger) : Prop where
  same : L.SameAccount
  leaves : L₀.Leaves accountId L

namespace Ledger.Within

variable {L₀ : Ledger} {db : Db}

theorem insertBalanceChange (h : L₀.Within accountId db.ledger) {c : BalanceChange}
    (hacc : c.accountId = accountId)
    (houtput : ∀ id ∈ c.causedByOutputId, db.outputs.Owns OutputRow.accountId id accountId)
    (hinput : ∀ id ∈ c.causedByInputId, db.inputs.Owns InputRow.accountId id accountId)
    (hreversal : ∀ id ∈ c.reversalOfBalanceChangeId,
      db.balanceChanges.Owns BalanceChangeRow.accountId id accountId) :
    L₀.Within accountId (db.insertBalanceChange c).2.ledger := by
  subst hacc
  exact ⟨h.same.insertBalanceChange (by intro _; rfl) ⟨houtput, hinput, hreversal⟩,
    h.leaves.trans (Leaves.insertBalanceChange (L := db.ledger) (m := c.toRow) rfl
      (by intro _; rfl))⟩

theorem reverseBalanceChange (h : L₀.Within accountId db.ledger) {p : BalanceChangeRow → Bool}
    {reversal : Option Id → BalanceChange}
    (hfound : ∀ b ∈ db.balanceChanges.rows, p b = true → b.accountId = accountId)
    (hacc : ∀ original, (reversal original).accountId = accountId)
    (horiginal : ∀ original, (reversal original).reversalOfBalanceChangeId = original)
    (houtput : ∀ original, ∀ id ∈ (reversal original).causedByOutputId,
      db.outputs.Owns OutputRow.accountId id accountId)
    (hinput : ∀ original, ∀ id ∈ (reversal original).causedByInputId,
      db.inputs.Owns InputRow.accountId id accountId) :
    L₀.Within accountId
      (db.reverseBalanceChange (db.lastActiveBalanceChangeId p) reversal).ledger := by
  unfold Db.reverseBalanceChange
  cases horig : db.lastActiveBalanceChangeId p with
  | none =>
      refine h.insertBalanceChange (hacc none) (houtput none) (hinput none) (fun id hid => ?_)
      rw [horiginal] at hid
      cases hid
  | some id =>
      obtain ⟨b, hb, hid, hp, -⟩ := lastActiveBalanceChangeId_some horig
      have hown : db.balanceChanges.Owns BalanceChangeRow.accountId id accountId :=
        ⟨b, hb, hid, hfound b hb hp⟩
      have hmark : L₀.Within accountId (db.markBalanceChangeAsReversed id).ledger := by
        refine ⟨h.same.updateBalanceChanges (fun b _ => b.ages_reversed) (by intro _; rfl),
          h.leaves.trans (Leaves.updateBalanceChanges (L := db.ledger) (fun b' hb' hp' => ?_)
            (by intro _; rfl))⟩
        have hacc' : b'.accountId = accountId := hown.eq hb' (beq_iff_eq.mp hp')
        exact ⟨hacc', hacc'⟩
      refine hmark.insertBalanceChange (hacc _) (houtput _) (hinput _) (fun id' hid' => ?_)
      rw [horiginal] at hid'
      cases hid'
      exact hown.retained (Table.retains_updateWhere _ (fun b _ => b.ages_reversed) (by intro _; rfl))
        (fun _ _ hb => hb.columns.2.2.2)

/-- An `UPDATE` of outputs of the account and of tombstones that leaves their locks alone. -/
theorem updateOutputs (h : L₀.Within accountId db.ledger) {p : OutputRow → Bool}
    {f : OutputRow → OutputRow}
    (hrows : ∀ o ∈ db.outputs.rows, p o = true → o.accountId = accountId ∨ o.active = false)
    (hage : ∀ o, p o = true → o.Ages (f o))
    (hlock : ∀ o, (f o).lockedByRequestId = o.lockedByRequestId) (hf : ∀ o, key (f o) = key o) :
    L₀.Within accountId (Db.ledger { db with outputs := db.outputs.updateWhere p f hf }) :=
  ⟨h.same.updateOutputs hage hlock hf,
    h.leaves.trans (Leaves.updateOutputs (L := db.ledger) hrows hage hf)⟩

theorem insertOrIgnoreInput (h : L₀.Within accountId db.ledger) {outputId : Id}
    (hown : db.outputs.Owns OutputRow.accountId outputId accountId) (height : Nat)
    (blockHash : FixedHash) (timestamp : Timestamp) : L₀.Within accountId
      (db.insertOrIgnoreInput accountId outputId height blockHash timestamp).ledger := by
  unfold Db.insertOrIgnoreInput
  split
  · exact h
  · exact ⟨h.same.insertInput (by intro _; rfl) hown,
      h.leaves.trans (Leaves.insertInput (L := db.ledger)
        (m := newInputRow accountId outputId height blockHash timestamp) rfl (by intro _; rfl))⟩

theorem insertScannedTipBlock (h : L₀.Within accountId db.ledger) (height : Int)
    (hash : FixedHash) :
    L₀.Within accountId (db.insertScannedTipBlock accountId height hash).ledger := by
  unfold Db.insertScannedTipBlock
  split
  · exact h
  · refine ⟨h.same.setTips _, h.leaves.trans (Leaves.setTips (L := db.ledger) (fun other hne => ?_))⟩
    exact Table.select_insert_outside (by simp [hne.symm]) (by intro _; rfl)

end Ledger.Within

/-! ## Blocks -/

section Block

variable {bp : BlockProcessor} {now : Timestamp} {block : BlockScanResult}

theorem within_blockRule (env : ScanEnv) (bp : BlockProcessor) (now : Timestamp)
    (block : BlockScanResult) (accountId : AccountId) (L₀ : Ledger) :
    BlockRule env bp now block accountId (fun _ => L₀.Within accountId)
      (fun _ => L₀.Within accountId) (fun _ => True) where
  skip _ _ _ _ h := h
  credit w rest key memo payref id db db' _ hins h := by
    obtain ⟨timestamp, -, hnew, rfl, rfl⟩ := insertOutput_ok hins
    let row : Id → OutputRow := newOutputRow env.toExternals accountId key w.1 w.2.1 block.height
      block.blockHash timestamp memo.parsed memo.hex payref w.2.1.isBurned
    let db₁ : Db := { db with outputs := db.outputs.insert row }
    have hinserted : L₀.Within accountId db₁.ledger :=
      ⟨h.same.insertOutput (m := row) (fun o ho hactive _ => hnew o ho hactive) rfl
        (by intro _; rfl),
        h.leaves.trans (Ledger.Leaves.insertOutput (L := db.ledger) (m := row) rfl
          (by intro _; rfl))⟩
    have hown : db₁.outputs.Owns OutputRow.accountId (db.outputs.seq + 1) accountId :=
      ⟨_, (AutoTable.mem_insert (by intro _; rfl)).mpr (Or.inr rfl), rfl, rfl⟩
    exact hinserted.insertBalanceChange rfl (fun id hid => by cases hid; exact hown)
      (fun _ hid => by cases hid) (fun _ hid => by cases hid)
  outputsDone _ h := h
  ignore _ _ _ _ h := h
  debit hash rest info timestamp inputId db hinfo hid h := by
    obtain ⟨o, ho, -, hacc, -, rfl⟩ := getOutputInfoByHashForAccount_some hinfo
    have hown : db.outputs.Owns OutputRow.accountId o.id accountId := ⟨o, ho, rfl, hacc⟩
    have hinput := h.insertOrIgnoreInput hown block.height block.blockHash timestamp
    -- the input found for the output is the account's, as the output is
    have hfound : (db.insertOrIgnoreInput accountId o.id block.height block.blockHash
        timestamp).inputs.Owns InputRow.accountId inputId accountId := by
      unfold Db.getActiveInputId at hid
      split at hid
      · next i hfind =>
          cases hid
          obtain ⟨hi, hp⟩ := Table.find?_some hfind
          simp only [Bool.and_eq_true, beq_iff_eq] at hp
          have howns := hinput.same.inputs i hi i.outputId rfl
          rw [hp.1, show (Db.ledger _).outputs = db.outputs from outputs_insertOrIgnoreInput ..]
            at howns
          exact ⟨i, hi, rfl, howns.unique hown⟩
      · cases hid
    refine (hinput.insertBalanceChange (c := makeBalanceChangeForInput accountId inputId
      o.toDbWalletOutput.output.value block now) rfl (fun _ hid => by cases hid)
      (fun id hid => by cases hid; exact hfound) (fun _ hid => by cases hid)).updateOutputs
      (p := fun o' => o'.id == o.id) (f := fun o' => { o' with status := .spent })
      (fun o' ho' hp => Or.inl ?_)
      (fun o' _ => o'.ages_spent) (by intro _; rfl) (by intro _; rfl)
    have ho'' : o' ∈ db.outputs.rows := by
      have hmem : o' ∈ (db.insertOrIgnoreInput accountId o.id block.height block.blockHash
        timestamp).outputs.rows := ho'
      rwa [outputs_insertOrIgnoreInput] at hmem
    exact hown.eq ho'' (beq_iff_eq.mp hp)
  record _ _ := trivial
  confirm _ _ _ := trivial

/-- The hashes are of undeleted outputs of the account, so that what is marked with them is theirs,
    or a tombstone. -/
theorem processConfirmations_within (L₀ : Ledger) :
    Ensures (fun db => L₀.Within accountId db.ledger)
      (BlockProcessor.processConfirmations bp now block accountId)
      (fun _ db => L₀.Within accountId db.ledger) := by
  let ofAccount : List FixedHash → Ledger → Prop := fun hashes L => ∀ hash ∈ hashes,
    ∃ o ∈ L.outputs.rows, o.active = true ∧ o.accountId = accountId ∧ o.outputHash = hash
  refine (confirmations_ensures (P := fun hashes L => L₀.Within accountId L ∧ ofAccount hashes L)
    (fun db hash rest h => ?_)).mono (fun db h => ⟨h, fun hash hhash => ?_⟩) (fun _ _ h => h.1)
  · obtain ⟨hwithin, hhashes⟩ := h
    refine ⟨hwithin.updateOutputs (p := fun o => o.outputHash == hash)
      (f := fun o => { o with
        confirmedHeight := some (asI64 block.height)
        confirmedHash := some block.blockHash }) (fun o ho hp => ?_)
      (fun o _ => o.ages_confirmed _ _) (by intro _; rfl) (by intro _; rfl),
      fun hash' hhash' => ?_⟩
    · obtain ⟨o', ho', hactive', hacc, hhash⟩ := hhashes hash List.mem_cons_self
      cases hactive : o.active with
      | false => exact Or.inr rfl
      | true =>
          obtain rfl := hwithin.same.hashes o ho o' ho' hactive hactive'
            ((beq_iff_eq.mp hp).trans hhash.symm)
          exact Or.inl hacc
    · obtain ⟨o, ho, hrest⟩ := hhashes hash' (List.mem_cons_of_mem _ hhash')
      refine ⟨_, (AutoTable.mem_updateWhere _).mpr ⟨o, ho, rfl⟩, ?_⟩
      split <;> exact hrest
  · obtain ⟨u, hu, rfl⟩ := List.mem_map.mp hhash
    obtain ⟨o, ho, rfl⟩ := List.mem_map.mp hu
    obtain ⟨ho, hp⟩ := Table.mem_select.mp ho
    simp only [Bool.and_eq_true, beq_iff_eq] at hp
    exact ⟨o, ho, hp.2, hp.1.1.1, rfl⟩

theorem processBlock_within {env : ScanEnv} {db db' : Db} {outcome : BlockOutcome}
    (hsame : db.ledger.SameAccount)
    (h : runOk (bp.processBlock env now block accountId) db = some (outcome, db')) :
    db.ledger.Within accountId db'.ledger :=
  (processBlock_ensures_of (within_blockRule env bp now block accountId db.ledger)
    (fun _ hwithin => hwithin.insertScannedTipBlock _ _)
    (processConfirmations_within db.ledger)).of_runOk ⟨hsame, .refl accountId _⟩ h

end Block

/-! ## Rollbacks -/

/-- The rows still to reverse are of the account. -/
def ownedRest (accountId : AccountId) : RollbackStage → Ledger → Prop
  | .inputs rest, L => ∀ row ∈ rest, L.inputs.Owns InputRow.accountId row.inputId accountId ∧
      L.outputs.Owns OutputRow.accountId row.outputId accountId
  | .outputs rest, L => ∀ row ∈ rest, L.outputs.Owns OutputRow.accountId row.id accountId
  | _, _ => True

theorem within_rollbackRule (accountId : AccountId) (height : Nat) (now : Timestamp)
    (L₀ : Ledger) : RollbackRule accountId height now
      (fun stage L => L₀.Within accountId L ∧ ownedRest accountId stage L) where
  cancel db h := by
    obtain ⟨⟨hsame, hleaves⟩, -⟩ := h
    refine ⟨⟨hsame.setPending (.updateWhere (fun p _ => p.ages_ended (by decide))
      (by intro _; rfl)),
      hleaves.trans (Ledger.Leaves.updatePending (L := db.ledger) (fun p hp hids => ?_)
        (by intro _; rfl))⟩, trivial⟩
    -- a cancelled request locks an output of the account
    have hmem := List.mem_dedup.mp (List.elem_iff.mp hids)
    obtain ⟨info, hinfo, hreq⟩ := List.mem_filterMap.mp hmem
    obtain ⟨o, ho, rfl⟩ := List.mem_map.mp hinfo
    obtain ⟨ho, hfrom⟩ := Table.mem_select.mp ho
    have hacc : p.accountId = accountId :=
      ((hsame.locks o ho p.id hreq).eq hp rfl).trans ((OutputRow.activeFrom_eq_true).mp hfrom).1.1
    exact ⟨hacc, hacc⟩
  inputs db h := by
    refine ⟨h.1, fun row hrow => ?_⟩
    obtain ⟨i, hi, hrow⟩ := List.mem_filterMap.mp hrow
    obtain ⟨o, ho, rfl⟩ := Option.map_eq_some_iff.mp hrow
    obtain ⟨hi, hfrom⟩ := Table.mem_select.mp hi
    obtain ⟨ho, hid⟩ := Table.get?_eq_some.mp ho
    have hacc : i.accountId = accountId := ((InputRow.activeFrom_eq_true).mp hfrom).1.1
    have hown : db.ledger.outputs.Owns OutputRow.accountId i.outputId i.accountId :=
      h.1.same.inputs i hi i.outputId rfl
    exact ⟨⟨i, hi, rfl, hacc⟩, ⟨o, ho, rfl, (hown.eq ho hid).trans hacc⟩⟩
  reverseInput db row rest h := by
    obtain ⟨hwithin, hrest⟩ := h
    obtain ⟨hinput, houtput⟩ := hrest row List.mem_cons_self
    refine ⟨hwithin.reverseBalanceChange (fun b hb hp => ?_) (fun _ => rfl) (fun _ => rfl)
      (fun _ id hid => by cases hid; exact houtput) (fun _ id hid => by cases hid; exact hinput),
      fun row' hrow' => ?_⟩
    · exact (hwithin.same.debits b hb row.inputId (beq_iff_eq.mp hp)).unique hinput
    · rw [reverseBalanceChange_frame]
      exact hrest row' (List.mem_cons_of_mem _ hrow')
  deleteInputs db h := by
    obtain ⟨⟨hsame, hleaves⟩, -⟩ := h
    refine ⟨⟨hsame.updateInputs (fun _ hp => InputRow.ages_deleted hp now) (by intro _; rfl),
      hleaves.trans (Ledger.Leaves.updateInputs (L := db.ledger) (fun i _ hp => ?_)
        (by intro _; rfl))⟩, trivial⟩
    have hacc := ((InputRow.activeFrom_eq_true).mp hp).1.1
    exact ⟨hacc, hacc⟩
  outputs db h := by
    refine ⟨h.1, fun row hrow => ?_⟩
    obtain ⟨o, ho, rfl⟩ := List.mem_map.mp hrow
    obtain ⟨ho, hfrom⟩ := Table.mem_select.mp ho
    exact ⟨o, ho, rfl, ((OutputRow.activeFrom_eq_true).mp hfrom).1.1⟩
  reverseOutput db row rest h := by
    obtain ⟨hwithin, hrest⟩ := h
    have houtput := hrest row List.mem_cons_self
    refine ⟨hwithin.reverseBalanceChange (fun b hb hp => ?_) (fun _ => rfl) (fun _ => rfl)
      (fun _ id hid => by cases hid; exact houtput) (fun _ id hid => by cases hid),
      fun row' hrow' => ?_⟩
    · exact (hwithin.same.credits b hb row.id (beq_iff_eq.mp hp)).unique houtput
    · rw [reverseBalanceChange_frame]
      exact hrest row' (List.mem_cons_of_mem _ hrow')
  deleteOutputs db h :=
    ⟨h.1.updateOutputs (fun o _ hp => Or.inl ((OutputRow.activeFrom_eq_true).mp hp).1.1)
      (fun _ hp => OutputRow.ages_deleted hp now) (by intro _; rfl) (by intro _; rfl), trivial⟩
  deleteTips db h := by
    obtain ⟨⟨hsame, hleaves⟩, -⟩ := h
    refine ⟨⟨hsame.setTips _, hleaves.trans (Ledger.Leaves.setTips (L := db.ledger)
      (fun other hne => ?_))⟩, trivial⟩
    refine Table.select_deleteWhere_outside (t := db.scannedTipBlocks.toTable) (fun b _ hp => ?_)
    simp only [Bool.and_eq_true, beq_iff_eq] at hp
    simp [hp.1, hne.symm]
  reset db h := by
    obtain ⟨⟨hsame, hleaves⟩, -⟩ := h
    refine ⟨⟨hsame.updateCompleted (fun c _ => c.ages_reset now) (by intro _; rfl),
      hleaves.trans (Ledger.Leaves.updateCompleted (L := db.ledger) (fun c _ hp => ?_)
        (by intro _; rfl))⟩, trivial⟩
    simp only [CompletedTransactionRow.minedFrom, Bool.and_eq_true, beq_iff_eq] at hp
    exact ⟨hp.1.1, hp.1.1⟩

theorem rollbackFromHeight_within {height : Nat} {webhookConfig : Option WebhookTriggerConfig}
    {now : Timestamp} {db db' : Db} {info : ReorgInformation} (hsame : db.ledger.SameAccount)
    (h : runOk (rollbackFromHeight accountId height webhookConfig now) db = some (info, db')) :
    db.ledger.Within accountId db'.ledger :=
  ((rollbackFromHeight_ensures (within_rollbackRule accountId height now db.ledger)
    webhookConfig).of_runOk ⟨⟨hsame, .refl accountId _⟩, trivial⟩ h).1

end MinotariWallet
