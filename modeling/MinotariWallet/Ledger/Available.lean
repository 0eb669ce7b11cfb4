import MinotariWallet.Ledger.Conservation
import MinotariWallet.Ledger.SpendStatus

set_option autoImplicit false

/-! # What the available balance counts

`get_balance` takes its total from `balance_changes` and what is locked or unconfirmed from
`outputs`. The two tables are filtered differently: burn outputs are in the total only, and an output
that is spent before it is confirmed leaves the total but stays in the unconfirmed value. -/

namespace MinotariWallet

open Sql Exec

/-- An output that can be selected and is confirmed. -/
def OutputRow.spendable (o : OutputRow) : Bool :=
  o.active && !o.isBurn && o.status == .unspent && o.confirmedHeight.isSome

namespace Db

/-- An undeleted input refers to the output. -/
def hasSpend (db : Db) (o : OutputRow) : Bool :=
  db.inputs.exists? (fun i => i.active && i.outputId == o.id)

def spendableValue (db : Db) (accountId : AccountId) : Int :=
  db.outputs.sumWhere (fun o => o.accountId == accountId && o.spendable) (·.value)

/-- What the total counts although it cannot be spent: burn outputs, and confirmed outputs that are
    `SPENT` without an input. -/
def overstatedValue (db : Db) (accountId : AccountId) : Int :=
  db.outputs.sumWhere (fun o => (o.accountId == accountId && o.active) && !db.hasSpend o &&
    (o.isBurn || o.status == .spent && o.confirmedHeight.isSome)) (·.value)

/-- What is taken off twice: outputs spent before they were confirmed. -/
def takenTwiceValue (db : Db) (accountId : AccountId) : Int :=
  db.outputs.sumWhere (fun o => (o.accountId == accountId && o.active) && db.hasSpend o &&
    (!o.isBurn && o.confirmedHeight.isNone)) (·.value)

/-- The credits and the debits of the account sum below `2 ^ 63`. -/
def BalanceFits (db : Db) (accountId : AccountId) : Prop :=
  db.balanceChanges.sumWhere (fun b => b.accountId == accountId) (·.balanceCredit) < 2 ^ 63 ∧
    db.balanceChanges.sumWhere (fun b => b.accountId == accountId) (·.balanceDebit) < 2 ^ 63

/-- `get_balance` returns, and what it calls available is the spendable value. -/
def AvailableIsSpendable (db : Db) (accountId : AccountId) : Prop :=
  ∃ balance, runOk (getBalance accountId) db = some (balance, db) ∧
    (balance.available : Int) = db.spendableValue accountId

/-- The two mistakes cancel, or there is nothing to spend and the balance stops at 0. -/
def MistakesCancel (db : Db) (accountId : AccountId) : Prop :=
  db.overstatedValue accountId = db.takenTwiceValue accountId ∨
    db.spendableValue accountId = 0 ∧
      db.overstatedValue accountId ≤ db.takenTwiceValue accountId

end Db

/-! ## The sums -/

/-- Whatever an undeleted input spends is `SPENT`. -/
def InputsSpend (outputs : AutoTable OutputRow) (inputs : AutoTable InputRow) : Prop :=
  ∀ i ∈ inputs.rows, i.active = true → ∀ o ∈ outputs.rows, o.id = i.outputId → o.status = .spent

section Sums

variable {db : Db} {a : AccountId}

theorem InputsSpend.spent (h : InputsSpend db.outputs db.inputs) {o : OutputRow}
    (ho : o ∈ db.outputs.rows) (hspend : db.hasSpend o = true) : o.status = .spent := by
  obtain ⟨i, hi, hp⟩ := Table.exists?_eq_true.mp hspend
  simp only [Bool.and_eq_true, beq_iff_eq] at hp
  exact h i hi hp.1 o ho hp.2.symm

/-- The unavailable value of the account. -/
def Db.unavailable (db : Db) (a : AccountId) : Int :=
  db.outputs.sumWhere (fun o => o.accountId == a && o.active && !o.isBurn)
    (fun o => if o.status = .locked ∨ o.confirmedHeight.isNone then o.value else 0)

/-- Row by row: the total less what is unavailable is the spendable value, but for the two
    mistakes. -/
theorem unspentValue_sub_unavailable (h : InputsSpend db.outputs db.inputs) :
    db.unspentValue a - db.unavailable a =
      db.spendableValue a + db.overstatedValue a - db.takenTwiceValue a := by
  unfold Db.unspentValue Db.unavailable Db.spendableValue Db.overstatedValue Db.takenTwiceValue
  simp only [Table.sumWhere_eq_sum]
  rw [← Table.sum_sub, ← Table.sum_add, ← Table.sum_sub]
  refine Table.sum_congr (fun o ho => ?_)
  change (if (o.accountId == a && o.active && !db.hasSpend o) = true then o.value else 0) - _ = _
  by_cases hacc : o.accountId = a ∧ o.active = true
  swap
  · by_cases hown : o.accountId = a
    · have hinactive : o.active = false := by simpa [hown] using hacc
      simp [OutputRow.spendable, hown, hinactive]
    · simp [hown]
  obtain ⟨hown, hactive⟩ := hacc
  cases hspend : db.hasSpend o with
  | true =>
      have hstatus := h.spent ho hspend
      cases hburn : o.isBurn <;> cases hconf : o.confirmedHeight <;>
        simp [OutputRow.spendable, hown, hactive, hstatus]
  | false =>
      cases hburn : o.isBurn <;> cases hconf : o.confirmedHeight <;> cases hstatus : o.status <;>
        simp [OutputRow.spendable, hown, hactive, hburn, hconf, hstatus]

/-- The value of the undeleted outputs of an account is among its credits. -/
theorem sumWhere_active_le_credits (h : LedgerBooked db.ledger) :
    db.outputs.sumWhere (fun o => o.accountId == a && o.active) (·.value) ≤
      db.balanceChanges.sumWhere (fun b => b.accountId == a) (·.balanceCredit) := by
  have hcredits := h.1.journal.reconciled.sumWhere (fun p => p.credit) a
  have hexpected : (((expectedPostings OutputRow.active InputRow.active db.ledger.outputs
      db.ledger.inputs).filter (fun p => p.owner == a)).map (fun p => p.credit)).sum =
      db.outputs.sumWhere (fun o => o.accountId == a && o.active) (·.value) := by
    unfold expectedPostings
    rw [List.filter_append, List.map_append, List.sum_append, List.filter_map, List.filter_map,
      List.map_map, List.map_map, Table.select, List.filter_filter]
    have hdebits : ∀ x ∈ ((db.ledger.inputs.select InputRow.active).filter
        ((fun p : BalancePosting => p.owner == a) ∘
          fun i => i.debitPosting (spentValue db.ledger.outputs i))).map
        ((fun p : BalancePosting => p.credit) ∘
          fun i => i.debitPosting (spentValue db.ledger.outputs i)), x = 0 := by
      intro x hx
      obtain ⟨i, -, rfl⟩ := List.mem_map.mp hx
      rfl
    rw [List.sum_eq_zero hdebits, Int.add_zero]
    rfl
  rw [hexpected] at hcredits
  rw [← hcredits]
  refine Table.sumWhere_le (t := db.balanceChanges.toTable) (w := (·.balanceCredit))
    (fun b hb => (h.1.journal.nonneg b hb).1) (fun b _ hb => (Bool.and_eq_true_iff.mp hb).1)

/-- The three sums of `get_output_totals_for_account` come to what is unavailable. -/
theorem getOutputTotalsForAccount_ok (hpos : ∀ o ∈ db.outputs.rows, 0 ≤ o.value)
    (hfits : db.outputs.sumWhere (fun o => o.accountId == a && o.active) (·.value) < 2 ^ 63) :
    ∃ locked unconfirmed both, db.getOutputTotalsForAccount a = .ok (locked, unconfirmed, both) ∧
      ((saturatingAdd locked unconfirmed - both : Nat) : Int) = db.unavailable a := by
  let counted : OutputRow → Bool := fun o => o.accountId == a && o.active && !o.isBurn
  have hcounted : db.outputs.sumWhere counted (·.value) < 2 ^ 63 :=
    (Table.sumWhere_le (t := db.outputs.toTable) hpos
      (fun o _ hp => (Bool.and_eq_true_iff.mp hp).1)).trans_lt hfits
  -- each of the three sums is over a part of the values, so it fits
  have hpart : ∀ w : OutputRow → Int, (∀ o ∈ db.outputs.rows, 0 ≤ w o ∧ w o ≤ o.value) →
      ∃ s, sqlSum ((db.outputs.select counted).map w) = .ok s ∧
        (asU64 (s.getD 0) : Int) = db.outputs.sumWhere counted w ∧
        db.outputs.sumWhere counted w < 2 ^ 63 := by
    intro w hw
    have hnonneg : 0 ≤ db.outputs.sumWhere counted w :=
      Table.sumWhere_nonneg (t := db.outputs.toTable) (fun o ho => (hw o ho).1)
    have hlt : db.outputs.sumWhere counted w < 2 ^ 63 :=
      (Table.sumWhere_le_weight (t := db.outputs.toTable) (fun o ho => (hw o ho).2)).trans_lt hcounted
    obtain ⟨s, hs⟩ := sqlSum_isOk ((db.outputs.select counted).map w)
      (List.forall_mem_map.mpr (fun o ho => (hw o (Table.mem_select.mp ho).1).1)) hlt
    refine ⟨s, hs, ?_, hlt⟩
    rw [sqlSum_ok hs]
    exact asU64_of_nonneg hnonneg (hlt.trans (by decide))
  have hif : ∀ (q : OutputRow → Prop) [DecidablePred q], ∀ o ∈ db.outputs.rows,
      0 ≤ (if q o then o.value else 0) ∧ (if q o then o.value else 0) ≤ o.value := by
    intro q _ o ho
    have := hpos o ho
    split <;> omega
  obtain ⟨l, hl, hlv, hllt⟩ := hpart _ (hif (fun o => o.status = .locked))
  obtain ⟨u, hu, huv, hult⟩ := hpart _ (hif (fun o => o.confirmedHeight.isNone = true))
  obtain ⟨b, hb, hbv, -⟩ := hpart _
    (hif (fun o => o.status = .locked ∧ o.confirmedHeight.isNone = true))
  refine ⟨asU64 (l.getD 0), asU64 (u.getD 0), asU64 (b.getD 0), ?_, ?_⟩
  · simp only [Db.getOutputTotalsForAccount]
    rw [hl, hu, hb]
    rfl
  · -- inclusion and exclusion, row by row
    have hsplit : db.unavailable a = db.outputs.sumWhere counted
          (fun o => if o.status = .locked then o.value else 0) +
        db.outputs.sumWhere counted (fun o => if o.confirmedHeight.isNone = true then o.value else 0) -
        db.outputs.sumWhere counted (fun o =>
          if o.status = .locked ∧ o.confirmedHeight.isNone = true then o.value else 0) := by
      unfold Db.unavailable
      simp only [Table.sumWhere_eq_sum]
      rw [← Table.sum_add, ← Table.sum_sub]
      refine Table.sum_congr (fun o _ => ?_)
      by_cases hp : counted o = true
      · rw [if_pos hp, if_pos hp, if_pos hp, if_pos hp]
        by_cases hlocked : o.status = .locked <;> cases hconf : o.confirmedHeight.isNone <;>
          simp [hlocked]
      · rw [if_neg hp, if_neg hp, if_neg hp, if_neg hp]
        rfl
    have hle : db.outputs.sumWhere counted (fun o =>
        if o.status = .locked ∧ o.confirmedHeight.isNone = true then o.value else 0) ≤
        db.outputs.sumWhere counted (fun o => if o.status = .locked then o.value else 0) := by
      refine Table.sumWhere_le_weight (t := db.outputs.toTable) (fun o ho => ?_)
      have := hpos o ho
      split <;> split <;> simp_all
    rw [hsplit, ← hlv, ← huv, ← hbv]
    unfold saturatingAdd
    omega

theorem runOk_getBalance (db : Db) (a : AccountId) : runOk (getBalance a) db =
    (db.getBalanceAggregatesForAccount a).toOption.bind (fun agg =>
      (db.getOutputTotalsForAccount a).toOption.bind (fun totals =>
        let totalCredits := asU64 (agg.totalCredits.getD 0)
        let totalDebits := asU64 (agg.totalDebits.getD 0)
        let total := totalCredits - totalDebits
        some ({
          total
          available := total - (saturatingAdd totals.1 totals.2.1 - totals.2.2)
          locked := totals.1
          unconfirmed := totals.2.1
          totalCredits, totalDebits
          maxHeight := agg.maxHeight
          maxDate := agg.maxDate }, db))) := by
  unfold getBalance
  rw [runOk_tryQuery_bind]
  refine congrArg _ (funext (fun agg => ?_))
  rw [runOk_tryQuery_bind]
  rfl

/-- `get_balance` on the books: it returns if and only if the sums fit, and its available balance is
    the unspent value less what is unavailable, stopped at 0. -/
theorem getBalance_booked (h : LedgerBooked db.ledger) :
    (∀ balance db', runOk (getBalance a) db = some (balance, db') → db.BalanceFits a) ∧
      (db.BalanceFits a → ∃ balance, runOk (getBalance a) db = some (balance, db) ∧
        (balance.available : Int) = max 0 (db.unspentValue a - db.unavailable a)) := by
  have hpos : ∀ o ∈ db.outputs.rows, 0 ≤ o.value := fun o ho => (h.1.values o ho).1
  rw [runOk_getBalance]
  constructor
  · intro balance db' hret
    obtain ⟨agg, hagg, -⟩ := Option.bind_eq_some_iff.mp hret
    have hread : db.getBalanceAggregatesForAccount a = .ok agg := by
      cases hres : db.getBalanceAggregatesForAccount a with
      | error e => simp [hres, Except.toOption] at hagg
      | ok agg' => simpa [hres, Except.toOption] using hagg
    exact getBalanceAggregatesForAccount_fits hread
  · intro hfits
    obtain ⟨agg, hagg⟩ := getBalanceAggregatesForAccount_isOk h.1.journal.nonneg hfits.1 hfits.2
    obtain ⟨locked, unconfirmed, both, htotals, hunavailable⟩ := getOutputTotalsForAccount_ok hpos
      ((sumWhere_active_le_credits h).trans_lt hfits.1)
    simp only [hagg, htotals, Except.toOption, Option.bind_some, Option.some.injEq, Prod.mk.injEq,
      and_true, exists_eq_left']
    obtain ⟨hcredits, hdebits⟩ := getBalanceAggregatesForAccount_ok hagg
    have hnet := (balancesAgree_of_booked h a).reported agg hagg
    have hcredit : (asU64 (agg.totalCredits.getD 0) : Int) = agg.totalCredits.getD 0 := by
      rw [hcredits]
      exact asU64_of_nonneg (Table.sumWhere_nonneg (fun b hb => (h.1.journal.nonneg b hb).1))
        (hfits.1.trans (by decide))
    have hdebit : (asU64 (agg.totalDebits.getD 0) : Int) = agg.totalDebits.getD 0 := by
      rw [hdebits]
      exact asU64_of_nonneg (Table.sumWhere_nonneg (fun b hb => (h.1.journal.nonneg b hb).2))
        (hfits.2.trans (by decide))
    have hunspent : 0 ≤ db.unspentValue a := Table.sumWhere_nonneg hpos
    omega

theorem availableIsSpendable_iff (h : LedgerBooked db.ledger)
    (hspend : InputsSpend db.outputs db.inputs) :
    db.AvailableIsSpendable a ↔ db.BalanceFits a ∧ db.MistakesCancel a := by
  obtain ⟨hneeds, hreturns⟩ := getBalance_booked (a := a) h
  have hsums := unspentValue_sub_unavailable (a := a) hspend
  have hpos : ∀ o ∈ db.outputs.rows, 0 ≤ o.value := fun o ho => (h.1.values o ho).1
  have hnonneg : 0 ≤ db.spendableValue a := Table.sumWhere_nonneg hpos
  -- the available balance is `max 0 (spendable + overstated - taken twice)`
  have hmax : max 0 (db.unspentValue a - db.unavailable a) = db.spendableValue a ↔
      db.MistakesCancel a := by
    rw [hsums]
    unfold Db.MistakesCancel
    omega
  constructor
  · rintro ⟨balance, hret, havailable⟩
    have hfits := hneeds balance db hret
    obtain ⟨balance', hret', havailable'⟩ := hreturns hfits
    cases hret.symm.trans hret'
    exact ⟨hfits, hmax.mp (havailable'.symm.trans havailable)⟩
  · rintro ⟨hfits, hcancel⟩
    obtain ⟨balance, hret, havailable⟩ := hreturns hfits
    exact ⟨balance, hret, havailable.trans (hmax.mpr hcancel)⟩

end Sums

/-! ## Inputs and what they spend -/

/-- The references of the inputs, and the status of what they refer to. -/
def SpendLinks (L : Ledger) : Prop :=
  SpendRefs L.outputs L.inputs ∧ InputsSpend L.outputs L.inputs

section Links

variable {outputs : AutoTable OutputRow} {inputs : AutoTable InputRow}

theorem InputsSpend.updateOutputs (h : InputsSpend outputs inputs) {p : OutputRow → Bool}
    {f : OutputRow → OutputRow}
    (hspent : ∀ o, p o = true → o.status = .spent → (f o).status = .spent)
    (hf : ∀ o, key (f o) = key o) :
    InputsSpend (outputs.updateWhere p f hf) inputs := by
  intro i hi hactive o' ho' hid
  obtain ⟨o, ho, rfl⟩ := (AutoTable.mem_updateWhere hf).mp ho'
  by_cases hp : p o = true
  · rw [if_pos hp] at hid ⊢
    exact hspent o hp (h i hi hactive o ho ((hf o).symm.trans hid))
  · rw [if_neg hp] at hid ⊢
    exact h i hi hactive o ho hid

theorem InputsSpend.of_inputs {inputs' : AutoTable InputRow} (h : InputsSpend outputs inputs)
    (hsub : ∀ i ∈ inputs'.rows, i.active = true → i ∈ inputs.rows) : InputsSpend outputs inputs' :=
  fun i hi hactive => h i (hsub i hi hactive) hactive

theorem spendLinks_blockRule (env : ScanEnv) (bp : BlockProcessor) (now : Timestamp)
    (block : BlockScanResult) (accountId : AccountId) :
    BlockRule env bp now block accountId (fun _ => SpendLinks) (fun _ => SpendLinks) SpendLinks where
  skip := fun _ _ _ _ h => h
  credit := fun w rest key memo payref id db db' _ hins h => by
    obtain ⟨timestamp, -, -, -, rfl⟩ := insertOutput_ok hins
    refine ⟨h.1.insertOutput (fun _ => rfl), fun i hi hactive o ho hid => ?_⟩
    rcases (AutoTable.mem_insert (fun _ => rfl)).mp ho with ho | rfl
    · exact h.2 i hi hactive o ho hid
    · -- no input refers to a key that was not given out yet
      obtain ⟨o', ho', hid', -⟩ := h.1.refs i hi hactive
      exact absurd (hid'.trans hid.symm) (db.outputs.fresh ho')
  outputsDone := fun _ h => h
  ignore := fun _ _ _ _ h => h
  debit := fun hash rest info timestamp inputId db hinfo hid h => by
    have hrefs := insertOrIgnoreInput_spendRefs h.1 hinfo hid
    rw [← outputs_insertOrIgnoreInput db accountId info.id block.height block.blockHash
      timestamp] at hrefs
    refine ⟨hrefs.updateOutputs (by intro _; rfl) (by intro _; rfl),
      fun i hi hactive o' ho' hio => ?_⟩
    have hout := outputs_insertOrIgnoreInput db accountId info.id block.height block.blockHash
      timestamp
    simp only [Db.ledger, Db.updateOutputStatus, Db.insertBalanceChange, hout] at ho'
    obtain ⟨o, ho, rfl⟩ := (AutoTable.mem_updateWhere _).mp ho'
    by_cases hown : (o.id == info.id) = true
    · rw [if_pos hown]
    · rw [if_neg hown] at hio ⊢
      rcases (insertOrIgnoreInput_refers hid i.outputId).mp ⟨i, hi, hactive, rfl⟩ with heq | hold
      · exact absurd (beq_iff_eq.mpr (hio.trans heq)) hown
      · obtain ⟨i', hi', hactive', hi''⟩ := hold
        exact h.2 i' hi' hactive' o ho (hio.trans hi''.symm)
  record := fun db h => by
    unfold Db.insertScannedTipBlock
    split <;> exact h
  confirm := fun db hash h =>
    ⟨h.1.updateOutputs (by intro _; rfl) (by intro _; rfl),
      h.2.updateOutputs (by intro _ _ hs; exact hs) (by intro _; rfl)⟩

theorem spendLinks_rollback (accountId : AccountId) (height : Nat)
    (webhookConfig : Option WebhookTriggerConfig) (now : Timestamp) :
    Ensures (fun db => SpendLinks db.ledger)
      (rollbackFromHeight accountId height webhookConfig now) (fun _ db => SpendLinks db.ledger) := by
  let links : AutoTable OutputRow → AutoTable InputRow → Prop := fun outputs inputs =>
    SpendRefs outputs inputs ∧ InputsSpend outputs inputs
  refine rollbackFromHeight_ensures (S := spendStages links links links)
    (spendStages_rollbackRule (fun db h => ?_) (fun db h => ?_)) webhookConfig
  · refine ⟨h.1.deleteInputs (by intro _; rfl) (by intro _; rfl),
      h.2.of_inputs (fun i hi hactive => ?_)⟩
    exact ((mem_setInputsDeleted_active hactive).mp hi).1
  · exact ⟨h.1.updateOutputs (by intro _; rfl) (by intro _; rfl),
      h.2.updateOutputs (by intro _ _ hs; exact hs) (by intro _; rfl)⟩

theorem spendLinks_step {env : ScanEnv} {db db' : Db} {a : LedgerAction} (h : SpendLinks db.ledger)
    (hstep : ledgerStep env db a = some db') : SpendLinks db'.ledger := by
  cases a with
  | processBlock bp block accountId now =>
      exact of_runOk_map (P := SpendLinks) (Q := SpendLinks)
        (processBlock_ensures (spendLinks_blockRule env bp now block accountId)) h hstep
  | lockOutput outputId req now =>
      cases hstep
      refine ⟨h.1.updateOutputs (by intro _; rfl) (by intro _; rfl),
        h.2.updateOutputs ?_ (by intro _; rfl)⟩
      intro o hp hspent
      simp [hspent] at hp
  | unlockOutputsForRequest req =>
      cases hstep
      refine ⟨h.1.updateOutputs (by intro _; rfl) (by intro _; rfl),
        h.2.updateOutputs ?_ (by intro _; rfl)⟩
      intro o hp hspent
      simp [hspent] at hp
  | rollbackFromHeight accountId height webhookConfig now =>
      exact of_runOk_map (P := SpendLinks) (Q := SpendLinks)
        (spendLinks_rollback accountId height webhookConfig now) h hstep

theorem spendLinks_empty : SpendLinks Db.empty.ledger := by
  refine ⟨⟨?_, ?_⟩, ?_⟩ <;> intro x hx <;> cases hx

end Links

/-! ## Spending only what is confirmed -/

/-- The block confirms the unconfirmed outputs mined at this height. -/
def DueIn (bp : BlockProcessor) (block : BlockScanResult) (minedInBlockHeight : Int) : Prop :=
  minedInBlockHeight ≤ asI64 (block.height - bp.requiredConfirmations)

/-- A block credits no burn output, and what it spends is confirmed at the latest by it. -/
def SpendsConfirmed (db : Db) : LedgerAction → Prop
  | .processBlock bp block accountId _ =>
    (∀ w ∈ block.walletOutputs, bp.walletIndexToAccountId[w.2.2]? = some accountId →
      w.2.1.isBurned = false ∧ (w.1 ∈ block.inputs → DueIn bp block (asI64 block.height))) ∧
    ∀ o ∈ db.outputs.rows, o.active = true → o.accountId = accountId → o.confirmedHeight = none →
      o.outputHash ∈ block.inputs → DueIn bp block o.minedInBlockHeight
  | _ => True

/-- The calls that make neither mistake. -/
def KeepsAvailable (db : Db) (a : LedgerAction) : Prop :=
  WellFormedCall db a ∧ RollbackKeepsSpends db a ∧ SpendsConfirmed db a

instance (bp : BlockProcessor) (block : BlockScanResult) (minedInBlockHeight : Int) :
    Decidable (DueIn bp block minedInBlockHeight) :=
  inferInstanceAs (Decidable (_ ≤ _))

instance (db : Db) : DecidablePred (SpendsConfirmed db)
  | .processBlock _ _ _ _ => inferInstanceAs (Decidable (_ ∧ _))
  | .lockOutput _ _ _ => .isTrue trivial
  | .unlockOutputsForRequest _ => .isTrue trivial
  | .rollbackFromHeight _ _ _ _ => .isTrue trivial

instance (db : Db) (a : LedgerAction) : Decidable (KeepsAvailable db a) := by
  unfold KeepsAvailable
  infer_instance

/-- The undeleted outputs are not burned, and confirmed if they are `SPENT`. -/
def PlainSpends (outputs : AutoTable OutputRow) : Prop :=
  ∀ o ∈ outputs.rows, o.active = true →
    o.isBurn = false ∧ (o.status = .spent → o.confirmedHeight.isSome = true)

section Plain

variable {env : ScanEnv} {bp : BlockProcessor} {now : Timestamp} {block : BlockScanResult}
  {accountId : AccountId}

/-- The same while a block is processed: what is spent and not confirmed is still due. -/
def PlainOrDue (bp : BlockProcessor) (block : BlockScanResult) (accountId : AccountId)
    (outputs : AutoTable OutputRow) : Prop :=
  ∀ o ∈ outputs.rows, o.active = true → o.isBurn = false ∧
    (o.status = .spent → o.confirmedHeight = none →
      o.accountId = accountId ∧ DueIn bp block o.minedInBlockHeight)

/-- What the inputs still to come spend is confirmed or due. -/
def DueToSpend (bp : BlockProcessor) (block : BlockScanResult) (accountId : AccountId)
    (rest : List FixedHash) (outputs : AutoTable OutputRow) : Prop :=
  ∀ o ∈ outputs.rows, o.active = true → o.accountId = accountId → o.confirmedHeight = none →
    o.outputHash ∈ rest → DueIn bp block o.minedInBlockHeight

theorem plainSpends_rule (env : ScanEnv) (now : Timestamp) :
    BlockRule env bp now block accountId
      (fun rest L => PlainOrDue bp block accountId L.outputs ∧
        DueToSpend bp block accountId block.inputs L.outputs ∧
        ∀ w ∈ rest, bp.walletIndexToAccountId[w.2.2]? = some accountId →
          w.2.1.isBurned = false ∧ (w.1 ∈ block.inputs → DueIn bp block (asI64 block.height)))
      (fun rest L => PlainOrDue bp block accountId L.outputs ∧
        DueToSpend bp block accountId rest L.outputs) (fun _ => True) where
  skip _ _ _ _ h := ⟨h.1, h.2.1, fun w hw => h.2.2 w (List.mem_cons_of_mem _ hw)⟩
  credit w rest key memo payref id db db' hidx hins h := by
    obtain ⟨timestamp, -, -, -, rfl⟩ := insertOutput_ok hins
    obtain ⟨hplain, hdue, hcome⟩ := h
    obtain ⟨hburned, hspends⟩ := hcome w List.mem_cons_self hidx
    refine ⟨fun o ho hactive => ?_, fun o ho hactive hacc hnone hmem => ?_,
      fun w' hw' => hcome w' (List.mem_cons_of_mem _ hw')⟩
    · rcases (AutoTable.mem_insert (fun _ => rfl)).mp ho with ho | rfl
      · exact hplain o ho hactive
      · exact ⟨hburned, fun hspent => by cases hspent⟩
    · rcases (AutoTable.mem_insert (fun _ => rfl)).mp ho with ho | rfl
      · exact hdue o ho hactive hacc hnone hmem
      · exact hspends hmem
  outputsDone _ h := ⟨h.1, h.2.1⟩
  ignore hash rest db _ h :=
    ⟨h.1, fun o ho hactive hacc hnone hmem =>
      h.2 o ho hactive hacc hnone (List.mem_cons_of_mem _ hmem)⟩
  debit hash rest info timestamp inputId db hinfo _ h := by
    obtain ⟨hplain, hdue⟩ := h
    obtain ⟨found, hfound, hfactive, hfacc, hfhash, rfl⟩ := getOutputInfoByHashForAccount_some hinfo
    have hrows : ∀ o' ∈ (((db.insertOrIgnoreInput accountId found.toDbWalletOutput.id block.height
        block.blockHash timestamp).insertBalanceChange (makeBalanceChangeForInput accountId inputId
          found.toDbWalletOutput.output.value block now)).2.updateOutputStatus
            found.toDbWalletOutput.id .spent).ledger.outputs.rows,
        ∃ o ∈ db.outputs.rows, o' = o ∨ o = found ∧ o' = { o with status := .spent } := by
      intro o' ho'
      simp only [Db.ledger, Db.updateOutputStatus, Db.insertBalanceChange,
        outputs_insertOrIgnoreInput] at ho'
      obtain ⟨o, ho, rfl⟩ := (AutoTable.mem_updateWhere _).mp ho'
      refine ⟨o, ho, ?_⟩
      by_cases hid : (o.id == found.toDbWalletOutput.id) = true
      · rw [if_pos hid]
        exact Or.inr ⟨db.outputs.eq_of_key_eq ho hfound (beq_iff_eq.mp hid), rfl⟩
      · rw [if_neg hid]
        exact Or.inl rfl
    constructor
    · intro o' ho' hactive
      obtain ⟨o, ho, rfl | ⟨rfl, rfl⟩⟩ := hrows o' ho'
      · exact hplain o' ho hactive
      · refine ⟨(hplain o ho hfactive).1, fun _ hnone => ⟨hfacc, ?_⟩⟩
        exact hdue o ho hfactive hfacc hnone (by rw [hfhash]; exact List.mem_cons_self)
    · intro o' ho' hactive hacc hnone hmem
      obtain ⟨o, ho, rfl | ⟨rfl, rfl⟩⟩ := hrows o' ho'
      · exact hdue o' ho hactive hacc hnone (List.mem_cons_of_mem _ hmem)
      · exact hdue o ho hactive hacc hnone (List.mem_cons_of_mem _ hmem)
  record _ _ := trivial
  confirm _ _ _ := trivial

/-- The confirmations of the block leave nothing spent and unconfirmed. -/
theorem processConfirmations_plainSpends :
    Ensures (fun db => PlainOrDue bp block accountId db.ledger.outputs)
      (BlockProcessor.processConfirmations bp now block accountId)
      (fun _ db => PlainSpends db.ledger.outputs) := by
  refine (confirmations_ensures (P := fun hashes L => ∀ o ∈ L.outputs.rows, o.active = true →
    o.isBurn = false ∧ (o.status = .spent → o.confirmedHeight = none → o.outputHash ∈ hashes))
    (fun db hash rest h => ?_)).mono (fun db h o ho hactive => ?_) (fun _ db h o ho hactive => ?_)
  · intro o' ho' hactive
    obtain ⟨o, ho, rfl⟩ := (AutoTable.mem_updateWhere _).mp ho'
    by_cases hmarked : (o.outputHash == hash) = true
    · rw [if_pos hmarked] at hactive ⊢
      exact ⟨(h o ho hactive).1, fun _ hnone => by cases hnone⟩
    · rw [if_neg hmarked] at hactive ⊢
      obtain ⟨hburn, hspent⟩ := h o ho hactive
      refine ⟨hburn, fun hs hnone => (List.mem_cons.mp (hspent hs hnone)).resolve_left ?_⟩
      exact fun heq => hmarked (beq_iff_eq.mpr heq)
  · obtain ⟨hburn, hspent⟩ := h o ho hactive
    refine ⟨hburn, fun hs hnone => ?_⟩
    obtain ⟨hacc, hdue⟩ := hspent hs hnone
    have hbound : o.minedInBlockHeight ≤ asI64 (block.height - bp.requiredConfirmations) := hdue
    refine List.mem_map.mpr ⟨_, List.mem_map.mpr ⟨o, Table.mem_select.mpr ⟨ho, ?_⟩, rfl⟩, rfl⟩
    simp [hactive, hacc, hnone, hbound]
  · obtain ⟨hburn, hspent⟩ := h o ho hactive
    refine ⟨hburn, fun hs => Option.isSome_iff_ne_none.mpr (fun hnone => ?_)⟩
    exact absurd (hspent hs hnone) List.not_mem_nil

theorem plainSpends_step {db db' : Db} {a : LedgerAction} (h : PlainSpends db.outputs)
    (hgood : SpendsConfirmed db a) (hstep : ledgerStep env db a = some db') :
    PlainSpends db'.outputs := by
  cases a with
  | processBlock bp block accountId now =>
      refine of_runOk_map (P := fun L => PlainOrDue bp block accountId L.outputs ∧
        DueToSpend bp block accountId block.inputs L.outputs ∧ ∀ w ∈ block.walletOutputs,
          bp.walletIndexToAccountId[w.2.2]? = some accountId → w.2.1.isBurned = false ∧
            (w.1 ∈ block.inputs → DueIn bp block (asI64 block.height)))
        (Q := fun L => PlainSpends L.outputs) ?_ ⟨fun o ho hactive => ?_, ?_, hgood.1⟩ hstep
      · refine processBlock_ensures_of (R := fun L => PlainOrDue bp block accountId L.outputs)
          (U := fun L => PlainSpends L.outputs) (plainSpends_rule env now) (fun db h => ?_)
          processConfirmations_plainSpends
        unfold Db.insertScannedTipBlock
        split <;> exact h.1
      · obtain ⟨hburn, hspent⟩ := h o ho hactive
        refine ⟨hburn, fun hs hnone => ?_⟩
        simp [hnone] at hspent
        exact absurd hs hspent
      · exact fun o ho hactive hacc hnone hmem => hgood.2 o ho hactive hacc hnone hmem
  | lockOutput outputId req now =>
      cases hstep
      intro o' ho' hactive
      obtain ⟨o, ho, rfl⟩ := (AutoTable.mem_updateWhere _).mp ho'
      by_cases hp : (o.id == outputId && o.status == .unspent) = true
      · rw [if_pos hp] at hactive ⊢
        exact ⟨(h o ho hactive).1, fun hs => by cases hs⟩
      · rw [if_neg hp] at hactive ⊢
        exact h o ho hactive
  | unlockOutputsForRequest req =>
      cases hstep
      intro o' ho' hactive
      obtain ⟨o, ho, rfl⟩ := (AutoTable.mem_updateWhere _).mp ho'
      by_cases hp : (o.lockedByRequestId == some req && o.status == .locked) = true
      · rw [if_pos hp] at hactive ⊢
        exact ⟨(h o ho hactive).1, fun hs => by cases hs⟩
      · rw [if_neg hp] at hactive ⊢
        exact h o ho hactive
  | rollbackFromHeight accountId height webhookConfig now =>
      obtain ⟨⟨info, db₁⟩, hrun, rfl⟩ := Option.map_eq_some_iff.mp hstep
      obtain ⟨c', hrun', rfl⟩ := runOk_eq_some.mp hrun
      intro o ho hactive
      rw [(rollbackFromHeight_rolledBack hrun').outputs] at ho
      exact h o ((mem_setOutputsDeleted_active hactive).mp ho).1 hactive

/-- Where neither mistake is made, they cancel. -/
theorem mistakesCancel_of_plain {db : Db} {a : AccountId}
    (hbacked : SpendStatusBacked db.outputs db.inputs) (hplain : PlainSpends db.outputs) :
    db.MistakesCancel a := by
  have hspent : ∀ o ∈ db.outputs.rows, o.active = true →
      (o.status = .spent ↔ db.hasSpend o = true) := by
    intro o ho hactive
    rw [hbacked o ho hactive]
    simp [Db.hasSpend]
  refine Or.inl ?_
  have hover : db.overstatedValue a = 0 := by
    refine Table.sumWhere_eq_zero (fun o ho => ?_)
    by_cases hactive : o.active = true
    · have hburn := (hplain o ho hactive).1
      have hiff := hspent o ho hactive
      cases hspend : db.hasSpend o with
      | true => simp
      | false => simp [hburn, hiff, hspend]
    · simp [hactive]
  have htwice : db.takenTwiceValue a = 0 := by
    refine Table.sumWhere_eq_zero (fun o ho => ?_)
    by_cases hactive : o.active = true
    · cases hspend : db.hasSpend o with
      | true =>
          have hconf := (hplain o ho hactive).2 ((hspent o ho hactive).mpr hspend)
          cases hheight : o.confirmedHeight with
          | none => simp [hheight] at hconf
          | some height => simp
      | false => simp
    · simp [hactive]
  rw [hover, htwice]

end Plain

/-! ## Runs -/

/-- In every state that a run of well-formed calls from the empty database reaches, the available
    balance of an account is its spendable value if and only if its sums fit and the two mistakes
    cancel. They do in every state of a run that rolls back across no spend, credits no burn output
    and spends only what is confirmed. -/
theorem availableIsSpendable_always (env : ScanEnv) (as : List LedgerAction)
    (hgood : Transition.Along (ledgerStep env) WellFormedCall Db.empty as) :
    Transition.Always (ledgerStep env)
        (fun db => ∀ a, db.AvailableIsSpendable a ↔ db.BalanceFits a ∧ db.MistakesCancel a)
        Db.empty as ∧
      (Transition.Along (ledgerStep env) KeepsAvailable Db.empty as →
        Transition.Always (ledgerStep env)
          (fun db => ∀ a, db.AvailableIsSpendable a ↔ db.BalanceFits a) Db.empty as) := by
  constructor
  · exact Transition.always_of_along
      (I := fun db => LedgerBooked db.ledger ∧ SpendLinks db.ledger)
      (fun _ _ _ h hg hstep => ⟨ledgerBooked_step h.1 hg hstep, spendLinks_step h.2 hstep⟩)
      (fun _ h _ => availableIsSpendable_iff h.1 h.2.2) ⟨ledgerBooked_empty, spendLinks_empty⟩ hgood
  · intro hkeeps
    refine Transition.always_of_along (I := fun db => LedgerBooked db.ledger ∧
        SpendLinks db.ledger ∧ SpendInv db.ledger ∧ PlainSpends db.outputs)
      (fun _ _ _ h hg hstep => ?_) (fun db h a => ?_) ?_ hkeeps
    · obtain ⟨hbooked, hlinks, hinv, hplain⟩ := h
      exact ⟨ledgerBooked_step hbooked hg.1 hstep, spendLinks_step hlinks hstep,
        spendInv_step hinv hg.2.1 hstep, plainSpends_step hplain hg.2.2 hstep⟩
    · obtain ⟨hbooked, hlinks, hinv, hplain⟩ := h
      exact (availableIsSpendable_iff hbooked hlinks.2).trans
        (and_iff_left (mistakesCancel_of_plain hinv.2 hplain))
    · refine ⟨ledgerBooked_empty, spendLinks_empty, spendInv_empty, fun o ho => ?_⟩
      cases ho

/-- Account 1 receives an output at height 1 and another at height 4, where the first is confirmed;
    a block at height 5 spends the second. -/
def spentUnconfirmed : List LedgerAction :=
  let bp := BlockProcessor.withEventSender [(1, 7)] 3
  [.processBlock bp ⟨1, 101, [(500, { outputHash := 500, value := 5 }, 0)], [], 1000⟩ 1 1000,
    .processBlock bp ⟨4, 104, [(501, { outputHash := 501, value := 10 }, 0)], [], 1360⟩ 1 1360,
    .processBlock bp ⟨5, 105, [], [501], 1480⟩ 1 1480]

/-- A burn output of account 1 and the blocks that confirm it. -/
def burnConfirmed : List LedgerAction :=
  let bp := BlockProcessor.withEventSender [(1, 7)] 3
  [.processBlock bp
      ⟨1, 101, [(500, { outputHash := 500, value := 5, isBurned := true }, 0)], [], 1000⟩ 1 1000,
    .processBlock bp ⟨4, 104, [], [], 1360⟩ 1 1360]

/-- What `get_balance` calls available in the last state of a run, and the spendable value there. -/
def availableAfter (as : List LedgerAction) : Option (MicroMinotari × Int) :=
  (Transition.run (ledgerStep plainEnv) Db.empty as).bind (fun db =>
    (runOk (getBalance 1) db).map (fun b => (b.1.available, db.spendableValue 1)))

theorem spentUnconfirmed_notSpendable :
    (availableAfter spentUnconfirmed = some (0, 5) ∧ availableAfter burnConfirmed = some (5, 0)) ∧
      ¬Transition.Always (ledgerStep plainEnv) (fun db => ∀ a, db.AvailableIsSpendable a) Db.empty
        spentUnconfirmed := by
  refine ⟨by decide +kernel, fun halways => ?_⟩
  obtain ⟨db, hrun, hq⟩ := Transition.exists_run_of_any (f := ledgerStep plainEnv) (s := Db.empty)
    (l := spentUnconfirmed) (q := fun db => decide ((runOk (getBalance 1) db).map
      (fun b => (b.1.available, db.spendableValue 1)) = some (0, 5))) (by decide +kernel)
  obtain ⟨balance, hret, havailable⟩ := halways.final hrun 1
  have hvalues := of_decide_eq_true hq
  rw [hret, Option.map_some, Option.some.injEq, Prod.mk.injEq] at hvalues
  rw [hvalues.1, hvalues.2] at havailable
  cases havailable

/-- The run up to the spend keeps what is available spendable. -/
theorem spentUnconfirmed_untilSpent :
    (availableAfter (spentUnconfirmed.take 2) = some (5, 5)) ∧
      Transition.Always (ledgerStep plainEnv)
        (fun db => ∀ a, db.AvailableIsSpendable a ↔ db.BalanceFits a) Db.empty
        (spentUnconfirmed.take 2) :=
  ⟨by decide +kernel, (availableIsSpendable_always plainEnv _ (by decide +kernel)).2
    (by decide +kernel)⟩

end MinotariWallet
