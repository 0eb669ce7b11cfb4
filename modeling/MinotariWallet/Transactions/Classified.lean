import Mathlib.Algebra.Order.BigOperators.Group.List
import Mathlib.Algebra.Order.Group.Nat
import Mathlib.Data.List.Sublists
import MinotariWallet.Transactions.Steps

set_option autoImplicit false

/-! # How a failed selection is reported

`fetch_unspent_outputs` compares the amount with two sums before it searches: the value of all
unspent outputs, confirmed or not, and that of the locked ones. Fees, and which of the unspent
outputs are confirmed, only come in with the search. So the search can fail although the sum of the
unspent outputs exceeds the amount, and funds can be reported as pending although none are. -/

namespace MinotariWallet

open Sql Exec

/-! ## Stored values -/

/-- The value column is the value of the stored output, as an `i64`. -/
def StoredValues (outputs : AutoTable OutputRow) : Prop :=
  ∀ o ∈ outputs.rows, o.value = asI64 o.walletOutput.value

theorem StoredValues.insert {outputs : AutoTable OutputRow} (h : StoredValues outputs)
    {mk : Id → OutputRow} (hmk : ∀ k, (mk k).id = k)
    (hnew : ∀ k, (mk k).value = asI64 (mk k).walletOutput.value) :
    StoredValues (outputs.insert mk hmk) := by
  intro o ho
  rcases (AutoTable.mem_insert hmk).mp ho with ho | rfl
  · exact h o ho
  · exact hnew _

theorem StoredValues.updateWhere {outputs : AutoTable OutputRow} (h : StoredValues outputs)
    {p : OutputRow → Bool} {f : OutputRow → OutputRow} (hid : ∀ o, (f o).id = o.id)
    (hvalue : ∀ o, (f o).value = o.value) (houtput : ∀ o, (f o).walletOutput = o.walletOutput) :
    StoredValues (outputs.updateWhere p f hid) := by
  intro o' ho'
  obtain ⟨o, ho, rfl⟩ := (AutoTable.mem_updateWhere hid).mp ho'
  split
  · rw [hvalue, houtput]
    exact h o ho
  · exact h o ho

theorem storedValues_rule (env : ScanEnv) (bp : BlockProcessor) (now : Timestamp)
    (block : BlockScanResult) (accountId : AccountId) :
    BlockRule env bp now block accountId (fun _ L => StoredValues L.outputs)
      (fun _ L => StoredValues L.outputs) (fun L => StoredValues L.outputs) where
  skip _ _ _ _ h := h
  credit w rest key memo payref id db db' _ hins h := by
    obtain ⟨timestamp, -, -, -, rfl⟩ := insertOutput_ok hins
    exact h.insert (by intro _; rfl) (by intro _; rfl)
  outputsDone _ h := h
  ignore _ _ _ _ h := h
  debit hash rest info timestamp inputId db _ _ h := by
    have hframe : (db.insertOrIgnoreInput accountId info.id block.height block.blockHash
        timestamp).outputs = db.outputs := by
      unfold Db.insertOrIgnoreInput
      split <;> rfl
    have h' : StoredValues (db.insertOrIgnoreInput accountId info.id block.height block.blockHash
        timestamp).outputs := by
      rw [hframe]
      exact h
    exact h'.updateWhere (by intro _; rfl) (by intro _; rfl) (by intro _; rfl)
  record db h := by
    unfold Db.insertScannedTipBlock
    split <;> exact h
  confirm db hash h := h.updateWhere (by intro _; rfl) (by intro _; rfl) (by intro _; rfl)

/-- A statement keeps the value columns. -/
theorem StoredValues.apply {db : Db} (h : StoredValues db.outputs) (x : Statement) :
    StoredValues (x.apply db).outputs := by
  intro o' ho'
  obtain ⟨o, ho, hchange⟩ := (outputsFrom_apply db x).backward o' ho'
  cases hchange with
  | stays => exact h _ ho
  | locks => exact h o ho
  | unlocks => exact h o ho

theorem StoredValues.step {env : TransactionEnv} {s s' : WalletSystem} {a : SystemAction}
    (h : StoredValues s.db.outputs) (hstep : s.step env a = some s') :
    StoredValues s'.db.outputs := by
  rcases WalletSystem.step_db hstep with hdb | ⟨i, ch, rfl⟩ | ⟨bp, block, accountId, now, rfl⟩ |
    ⟨accountId, height, webhookConfig, now, rfl⟩
  · rw [hdb]
    exact h
  · obtain ⟨c, x, c', -, -, -, rfl⟩ := WalletSystem.step_statement hstep
    exact h.apply x
  · obtain ⟨⟨outcome, db⟩, hrun, rfl⟩ := Option.map_eq_some_iff.mp hstep
    exact (processBlock_ensures (storedValues_rule _ bp now block accountId)).of_runOk h hrun
  · obtain ⟨db, rfl, houtputs, -⟩ := WalletSystem.step_rollbackFromHeight hstep
    rw [show ({ s with db := db } : WalletSystem).db.outputs = db.outputs from rfl, houtputs]
    exact h.updateWhere (by intro _; rfl) (by intro _; rfl) (by intro _; rfl)

/-- In every state that runs of the calls reach, the value columns are those of the outputs. -/
theorem storedValues_of_run {env : TransactionEnv} {as : List SystemAction} {s : WalletSystem}
    (hrun : Transition.run (WalletSystem.step env) { db := Db.empty } as = some s) :
    StoredValues s.db.outputs :=
  Transition.inv_of_steps (I := fun s : WalletSystem => StoredValues s.db.outputs)
    (fun _ _ _ h hstep => h.step hstep) (fun o ho => by cases ho) hrun

/-- A sum of value columns is that of the outputs, but for a multiple of `2 ^ 64`. -/
theorem sum_value_emod {rows : List OutputRow}
    (h : ∀ o ∈ rows, o.value = asI64 o.walletOutput.value) :
    (rows.map (·.value)).sum % 2 ^ 64 =
      ((rows.map (·.walletOutput.value)).sum : Nat) % (2 ^ 64 : Int) := by
  induction rows with
  | nil => rfl
  | cons o rest ih =>
      have hhead := h o List.mem_cons_self
      have hrest := ih (fun o ho => h o (List.mem_cons_of_mem _ ho))
      have hcast : asI64 o.walletOutput.value % 2 ^ 64 =
          (o.walletOutput.value : Int) % 2 ^ 64 := by
        unfold asI64
        omega
      rw [List.map_cons, List.sum_cons, List.map_cons, List.sum_cons, hhead, Int.add_emod, hcast,
        hrest, Int.natCast_add, ← Int.add_emod]

theorem asU64_eq_of_emod {x : Int} {n : Nat} (h : x % 2 ^ 64 = (n : Int) % 2 ^ 64)
    (hn : n < 2 ^ 64) : asU64 x = n := by
  unfold asU64
  omega

/-! ## The funds of an account -/

namespace Db

/-- The outputs that the balances of the account count. -/
def fundRows (db : Db) (accountId : AccountId) (p : OutputRow → Bool) : List OutputRow :=
  db.outputs.select (fun o => o.accountId == accountId && o.active && !o.isBurn && p o)

def unspentFunds (db : Db) (accountId : AccountId) : Nat :=
  ((db.fundRows accountId (fun o => o.status == .unspent)).map (·.walletOutput.value)).sum

def lockedFunds (db : Db) (accountId : AccountId) : Nat :=
  ((db.fundRows accountId (fun o => o.status == .locked)).map (·.walletOutput.value)).sum

/-- All that is unspent or locked, confirmed or not. -/
def allFunds (db : Db) (accountId : AccountId) : List DbWalletOutput :=
  (db.fundRows accountId (fun o => o.status == .unspent || o.status == .locked)).map
    OutputRow.toDbWalletOutput

end Db

namespace InputSelector

/-- The rest of `fetch_unspent_outputs`, when no other call runs in between. -/
def resume (env : TransactionEnv) (s : InputSelector) (db : Db) :
    Selecting ⊕ UtxoSelection → Except TransactionError (Selecting ⊕ UtxoSelection)
  | .inl st => s.step env db st
  | .inr selection => .ok (.inr selection)

/-- The four statements of `fetch_unspent_outputs`, on one state of the database. -/
def fetchUnspentOutputs (env : TransactionEnv) (s : InputSelector) (db : Db) :
    Except TransactionError (Selecting ⊕ UtxoSelection) :=
  s.step env db .tip >>= s.resume env db >>= s.resume env db >>= s.resume env db

/-- What is searched for, with outputs of this size. -/
def searchParameters (env : TransactionEnv) (s : InputSelector) (size : Nat) :
    SearchParameters where
  targetAmount := s.amount + env.calculateFee s.feePerGram 1 0 0 0
  feePerInput := env.calculateFee s.feePerGram 0 1 0 0
  totalOutputFee := env.calculateFee s.feePerGram 0 0 s.numOutputs size
  changeFee := env.calculateFee s.feePerGram 0 0 1 size

/-- The outputs that are confirmed as the selector asks. -/
def confirmedUnspent (s : InputSelector) (db : Db) : List DbWalletOutput :=
  db.fetchUnspentOutputs s.accountId
    ((db.getLatestScannedTipBlockHeightByAccount s.accountId).getD 0 - s.confirmationWindow)

end InputSelector

/-- The outputs pay for the target, for the recipient outputs and for themselves. -/
def SearchParameters.Pays (params : SearchParameters) (selected : List DbWalletOutput) : Prop :=
  params.targetAmount + params.totalOutputFee + selected.length * params.feePerInput ≤
    (selected.map (·.output.value)).sum

instance (params : SearchParameters) (selected : List DbWalletOutput) :
    Decidable (params.Pays selected) := inferInstanceAs (Decidable (_ ≤ _))

/-- Some of the outputs do. -/
def SearchParameters.Covers (params : SearchParameters) (utxos : List DbWalletOutput) : Prop :=
  ∃ selected, selected.Sublist utxos ∧ params.Pays selected

/-- The search returns a selection if some of the outputs cover amount and fees, and none if none
    do. -/
structure SearchComplete (env : TransactionEnv) : Prop where
  found : ∀ utxos params, params.Covers utxos → ∃ r, env.search utxos params = .ok (some r)
  none : ∀ utxos params, ¬params.Covers utxos → env.search utxos params = .ok none

/-- A cover costs at least the target. -/
theorem SearchParameters.Covers.le_sum {params : SearchParameters} {utxos : List DbWalletOutput}
    (h : params.Covers utxos) : params.targetAmount ≤ (utxos.map (·.output.value)).sum := by
  obtain ⟨selected, hsub, hpays⟩ := h
  calc
    params.targetAmount
      ≤ params.targetAmount + params.totalOutputFee + selected.length * params.feePerInput :=
        (Nat.le_add_right _ _).trans (Nat.le_add_right _ _)
    _ ≤ (selected.map (·.output.value)).sum := hpays
    _ ≤ (utxos.map (·.output.value)).sum :=
        (hsub.map _).sum_le_sum (fun _ _ => Nat.zero_le _)

namespace InputSelector

/-- How a failed selection has to be reported: as pending only if the confirmed outputs do not
    cover amount and fees, something is pending, and with it the amount is there; as insufficient
    only if all the funds do not cover amount and fees, and with less available than required. -/
def ReportsTruthfully (env : TransactionEnv) (s : InputSelector) (size : Nat) (db : Db) : Prop :=
  match s.fetchUnspentOutputs env db with
  | .error (.fundsPending available pending required) =>
    ¬(s.searchParameters env size).Covers (s.confirmedUnspent db) ∧ 0 < pending ∧
      required ≤ available + pending ∧ required = s.amount
  | .error (.insufficientFunds available required) =>
    ¬(s.searchParameters env size).Covers (db.allFunds s.accountId) ∧ available < required
  | _ => True

end InputSelector

/-! ## The two sums -/

section Sums

variable {db : Db} {a : AccountId}

theorem StoredValues.of_fundRows (h : StoredValues db.outputs) (p : OutputRow → Bool) :
    ∀ o ∈ db.fundRows a p, o.value = asI64 o.walletOutput.value :=
  fun o ho => h o (Table.mem_select.mp ho).1

theorem sum_locked_eq :
    ((db.outputs.select (fun o => o.accountId == a && o.active && !o.isBurn)).map
      (fun o => if o.status = .locked then o.value else 0)).sum =
      ((db.fundRows a (fun o => o.status == .locked)).map (·.value)).sum := by
  show db.outputs.sumWhere _ _ = db.outputs.sumWhere _ _
  rw [Table.sumWhere_eq_sum, Table.sumWhere_eq_sum]
  refine Table.sum_congr (fun o _ => ?_)
  by_cases hcounted : (o.accountId == a && o.active && !o.isBurn) = true
  · simp [hcounted]
  · simp [hcounted]

/-- The locked value that the query returns, when it is an amount. -/
theorem getOutputTotalsForAccount_locked (h : StoredValues db.outputs)
    (hfits : db.lockedFunds a < 2 ^ 64) {locked unconfirmed both : MicroMinotari}
    (htotals : db.getOutputTotalsForAccount a = .ok (locked, unconfirmed, both)) :
    locked = db.lockedFunds a := by
  unfold Db.getOutputTotalsForAccount at htotals
  simp only [bind, Except.bind] at htotals
  split at htotals
  · cases htotals
  · next sum hsum =>
      split at htotals
      · cases htotals
      · split at htotals
        · cases htotals
        · cases htotals
          have hmod := sum_value_emod (h.of_fundRows (a := a) (fun o => o.status == .locked))
          rw [sqlSum_ok hsum, sum_locked_eq]
          exact asU64_eq_of_emod hmod hfits

/-- The unspent value that the query returns, when it is an amount. -/
theorem getTotalUnspentBalance_eq (h : StoredValues db.outputs)
    (hfits : db.unspentFunds a < 2 ^ 64) {available : MicroMinotari}
    (hbalance : db.getTotalUnspentBalance a = .ok available) :
    available = db.unspentFunds a := by
  unfold Db.getTotalUnspentBalance at hbalance
  simp only [bind, Except.bind] at hbalance
  split at hbalance
  · cases hbalance
  · next sum hsum =>
      have hrows : db.outputs.select (fun o => o.accountId == a && o.status == .unspent
          && o.active && !o.isBurn) = db.fundRows a (fun o => o.status == .unspent) := by
        unfold Db.fundRows
        congr 1
        funext o
        ac_rfl
      have hmod := sum_value_emod (h.of_fundRows (a := a) (fun o => o.status == .unspent))
      have hlt := sqlSum_lt hsum
      have hval := sqlSum_ok hsum
      rw [hrows] at hlt hval
      split at hbalance
      · cases hbalance
      · next hnonneg =>
          cases hbalance
          have heq := asU64_of_nonneg (not_lt.mp hnonneg) (hval ▸ hlt.trans (by decide))
          rw [← heq, Int.toNat_natCast, hval]
          exact asU64_eq_of_emod hmod hfits

theorem sum_filter_or {ρ : Type} {p q : ρ → Bool} (w : ρ → Nat) (h : ∀ r, p r = true → q r = false)
    (rows : List ρ) : ((rows.filter (fun r => p r || q r)).map w).sum =
      ((rows.filter p).map w).sum + ((rows.filter q).map w).sum := by
  induction rows with
  | nil => rfl
  | cons r rest ih =>
      cases hp : p r with
      | true =>
          have hq := h r hp
          simp only [List.filter_cons, hp, hq, Bool.true_or, if_true, List.map_cons,
            List.sum_cons, ih, Bool.false_eq_true, if_false]
          omega
      | false =>
          cases hq : q r with
          | true =>
              simp only [List.filter_cons, hp, hq, Bool.false_or, if_true, List.map_cons,
                List.sum_cons, ih, Bool.false_eq_true, if_false]
              omega
          | false =>
              simp only [List.filter_cons, hp, hq, Bool.or_self, Bool.false_eq_true, if_false, ih]

/-- All funds are the unspent and the locked ones. -/
theorem sum_allFunds : ((db.allFunds a).map (·.output.value)).sum =
    db.unspentFunds a + db.lockedFunds a := by
  unfold Db.allFunds Db.unspentFunds Db.lockedFunds Db.fundRows Table.select
  rw [List.map_map, ← sum_filter_or]
  · simp only [Bool.and_or_distrib_left]
    rfl
  · intro o ho
    simp only [Bool.and_eq_true, beq_iff_eq] at ho
    simp [ho.2]

end Sums

namespace InputSelector

variable {env : TransactionEnv} {s : InputSelector} {size : Nat} {db : Db}

/-- What the statements come to when both sums can be read. -/
theorem fetchUnspentOutputs_eq {locked unconfirmed both available : MicroMinotari}
    (htotals : db.getOutputTotalsForAccount s.accountId = .ok (locked, unconfirmed, both))
    (hbalance : db.getTotalUnspentBalance s.accountId = .ok available) :
    s.fetchUnspentOutputs env db =
      if available ≤ s.amount ∧ s.amount ≤ available + locked then
        .error (.fundsPending available locked s.amount)
      else (s.select env available (s.confirmedUnspent db)).map .inr := by
  unfold fetchUnspentOutputs confirmedUnspent
  by_cases h : available ≤ s.amount ∧ s.amount ≤ available + locked
  · simp only [step, resume, htotals, hbalance, bind, Except.bind, if_pos h]
  · simp only [step, resume, htotals, hbalance, bind, Except.bind, if_neg h]
    cases s.select env available _ <;> rfl

/-- Without one of the sums there is another error. -/
theorem fetchUnspentOutputs_unread
    (h : ¬((db.getOutputTotalsForAccount s.accountId).toOption.isSome ∧
      (db.getTotalUnspentBalance s.accountId).toOption.isSome)) :
    ∃ e, s.fetchUnspentOutputs env db = .error (.db e) := by
  unfold fetchUnspentOutputs
  simp only [step, resume, bind, Except.bind]
  cases htotals : db.getOutputTotalsForAccount s.accountId with
  | error e => exact ⟨e, rfl⟩
  | ok totals =>
      cases hbalance : db.getTotalUnspentBalance s.accountId with
      | error e => exact ⟨e, by simp only⟩
      | ok available =>
          rw [htotals, hbalance] at h
          exact absurd ⟨rfl, rfl⟩ h

/-- A selection is made exactly when the outputs cover amount and fees. -/
theorem select_covers (hsearch : SearchComplete env)
    (hsize : s.estimatedOutputSize.elim env.getDefaultFeaturesAndScriptsSize .ok = .ok size)
    (total : MicroMinotari) (uo : List DbWalletOutput) :
    ((s.searchParameters env size).Covers uo → ∃ selection, s.select env total uo = .ok selection) ∧
      (¬(s.searchParameters env size).Covers uo →
        s.select env total uo = .error (.insufficientFunds total (s.amount + 1))) := by
  unfold select
  rw [hsize]
  constructor
  · intro hcovers
    obtain ⟨r, hr⟩ := hsearch.found uo _ hcovers
    unfold searchParameters at hr
    simp only [hr]
    exact ⟨_, rfl⟩
  · intro hnone
    have hr := hsearch.none uo _ hnone
    unfold searchParameters at hr
    simp only [hr]

/-- When a failure is reported truthfully: the amount is between the unspent value and that with the
    locked value, something is locked and the confirmed outputs do not suffice; or the amount is
    not below the unspent value, or the confirmed outputs suffice. -/
def TruthfulWhen (env : TransactionEnv) (s : InputSelector) (size : Nat) (db : Db) : Prop :=
  (db.getOutputTotalsForAccount s.accountId).toOption.isSome →
  (db.getTotalUnspentBalance s.accountId).toOption.isSome →
    let unspent := db.unspentFunds s.accountId
    let locked := db.lockedFunds s.accountId
    let covered := (s.searchParameters env size).Covers (s.confirmedUnspent db)
    if unspent ≤ s.amount ∧ s.amount ≤ unspent + locked then 0 < locked ∧ ¬covered
    else unspent ≤ s.amount ∨ covered

/-- In every state that the calls reach, a failed selection is reported truthfully exactly when
    `TruthfulWhen` holds. -/
theorem reportsTruthfully_iff (hsearch : SearchComplete env)
    (hsize : s.estimatedOutputSize.elim env.getDefaultFeaturesAndScriptsSize .ok = .ok size)
    {as : List SystemAction} {w : WalletSystem}
    (hrun : Transition.run (WalletSystem.step env) { db := Db.empty } as = some w)
    (hfits : ((w.db.allFunds s.accountId).map (·.output.value)).sum < 2 ^ 64) :
    s.ReportsTruthfully env size w.db ↔ s.TruthfulWhen env size w.db := by
  have hstored := storedValues_of_run hrun
  have hsum : ((w.db.allFunds s.accountId).map (·.output.value)).sum =
      w.db.unspentFunds s.accountId + w.db.lockedFunds s.accountId := sum_allFunds
  rw [hsum] at hfits
  unfold ReportsTruthfully TruthfulWhen
  cases htotals : w.db.getOutputTotalsForAccount s.accountId with
  | error e =>
      obtain ⟨e', he⟩ : ∃ e, s.fetchUnspentOutputs env w.db = .error (.db e) :=
        fetchUnspentOutputs_unread (by simp [htotals, Except.toOption])
      simp [he, Except.toOption]
  | ok totals =>
      obtain ⟨locked, unconfirmed, both⟩ := totals
      cases hbalance : w.db.getTotalUnspentBalance s.accountId with
      | error e =>
          obtain ⟨e', he⟩ : ∃ e, s.fetchUnspentOutputs env w.db = .error (.db e) :=
            fetchUnspentOutputs_unread (by simp [hbalance, Except.toOption])
          simp [he, Except.toOption]
      | ok available =>
          have hlocked := getOutputTotalsForAccount_locked hstored
            ((Nat.le_add_left _ _).trans_lt hfits) htotals
          have havailable := getTotalUnspentBalance_eq hstored
            ((Nat.le_add_right _ _).trans_lt hfits) hbalance
          rw [fetchUnspentOutputs_eq htotals hbalance, ← hlocked, ← havailable]
          simp only [Except.toOption, Option.isSome_some, forall_const]
          by_cases hpending : available ≤ s.amount ∧ s.amount ≤ available + locked
          · rw [if_pos hpending, if_pos hpending]
            constructor
            · rintro ⟨hnot, hlt, -, -⟩
              exact ⟨hlt, hnot⟩
            · rintro ⟨hlt, hnot⟩
              exact ⟨hnot, hlt, hpending.2, rfl⟩
          · rw [if_neg hpending, if_neg hpending]
            have hselect := select_covers hsearch hsize available (s.confirmedUnspent w.db)
            by_cases hcovers : (s.searchParameters env size).Covers (s.confirmedUnspent w.db)
            · obtain ⟨selection, hselection⟩ := hselect.1 hcovers
              rw [hselection]
              exact iff_of_true trivial (Or.inr hcovers)
            · rw [hselect.2 hcovers]
              constructor
              · rintro ⟨-, hlt⟩
                exact Or.inl (Nat.lt_succ_iff.mp hlt)
              · rintro (hle | hcovered)
                · refine ⟨fun hall => ?_, Nat.lt_succ_of_le hle⟩
                  -- the amount exceeds all the funds, so they do not cover it
                  have htarget := hall.le_sum
                  rw [hsum, ← hlocked, ← havailable] at htarget
                  exact hpending ⟨hle, (Nat.le_add_right _ _).trans htarget⟩
                · exact absurd hcovered hcovers

end InputSelector

/-! ## One output of 1000 -/

def SearchParameters.resultFor (params : SearchParameters) (selected : List DbWalletOutput) :
    SearchResult where
  selectedUtxos := selected
  currentValue := (selected.map (·.output.value)).sum
  hasChange := false
  finalFee := selected.length * params.feePerInput + params.totalOutputFee

/-- An environment whose search goes through all combinations of the outputs. -/
def completeEnv : TransactionEnv where
  toScanEnv := plainEnv
  calculateFee := plainTransactionEnv.calculateFee
  getDefaultFeaturesAndScriptsSize := .ok 0
  search := fun utxos params =>
    .ok ((utxos.sublists.find? (fun selected => decide (params.Pays selected))).map
      params.resultFor)
  search_mem := by
    intro utxos params r h u hu
    obtain ⟨selected, hfind, rfl⟩ := Option.map_eq_some_iff.mp (Except.ok.inj h)
    exact (List.mem_sublists.mp (List.mem_of_find?_eq_some hfind)).subset hu
  transactionFee := plainTransactionEnv.transactionFee

theorem completeEnv_searchComplete : SearchComplete completeEnv where
  found utxos params := by
    rintro ⟨selected, hsub, hpays⟩
    cases hfind : utxos.sublists.find? (fun selected => decide (params.Pays selected)) with
    | none =>
        have hno := List.find?_eq_none.mp hfind selected (List.mem_sublists.mpr hsub)
        exact absurd (decide_eq_true hpays) hno
    | some found =>
        exact ⟨params.resultFor found, by simp only [completeEnv, hfind, Option.map_some]⟩
  none utxos params hnot := by
    cases hfind : utxos.sublists.find? (fun selected => decide (params.Pays selected)) with
    | none => simp only [completeEnv, hfind, Option.map_none]
    | some found =>
        have hpays : decide (params.Pays found) = true := by
          simpa using List.find?_some hfind
        exact absurd ⟨found, List.mem_sublists.mp (List.mem_of_find?_eq_some hfind),
          of_decide_eq_true hpays⟩ hnot

/-- Block 1 pays 1000 to account 1. -/
def receiveThousand : List SystemAction :=
  [.processBlock (BlockProcessor.withEventSender [(1, 7)] 3)
    ⟨1, 101, [(500, { outputHash := 500, value := 1000 }, 0)], [], 1000⟩ 1 1000]

def thousandReceived : WalletSystem :=
  (Transition.run (WalletSystem.step completeEnv) { db := Db.empty } receiveThousand).get
    (by decide +kernel)

namespace InputSelector

/-- A payment with a confirmation window. -/
def paying (amount : MicroMinotari) (confirmationWindow : Nat) : InputSelector where
  accountId := 1
  confirmationWindow := confirmationWindow
  amount := amount
  numOutputs := 1
  feePerGram := 5
  estimatedOutputSize := none

/-- 1001 is more than there is, and is reported so. -/
theorem shortfall_reported :
    (paying 1001 0).ReportsTruthfully completeEnv 0 thousandReceived.db := by
  let account := (paying 1001 0).accountId
  have hless : thousandReceived.db.unspentFunds account ≤ (paying 1001 0).amount := by
    decide +kernel
  have hmore : ¬(thousandReceived.db.unspentFunds account ≤ (paying 1001 0).amount ∧
      (paying 1001 0).amount ≤ thousandReceived.db.unspentFunds account +
        thousandReceived.db.lockedFunds account) := by decide +kernel
  have hrun : Transition.run (WalletSystem.step completeEnv) { db := Db.empty } receiveThousand =
      some thousandReceived := (Option.some_get _).symm
  refine (reportsTruthfully_iff completeEnv_searchComplete rfl hrun (by decide +kernel)).mpr
    (fun _ _ => ?_)
  show if _ then _ else _
  rw [if_neg hmore]
  exact Or.inl hless

/-- With the whole balance to pay, funds are pending although nothing is locked; with unconfirmed
    funds only, a payment of 10 is refused with 1000 available and 11 required. -/
theorem pending_without_pending_funds :
    (∃ w, Transition.run (WalletSystem.step completeEnv) { db := Db.empty } receiveThousand =
      some w ∧
      (paying 1000 0).fetchUnspentOutputs completeEnv w.db =
        .error (.fundsPending 1000 0 1000) ∧
      ¬(paying 1000 0).ReportsTruthfully completeEnv 0 w.db) ∧
    ∃ w, Transition.run (WalletSystem.step completeEnv) { db := Db.empty } receiveThousand =
      some w ∧
      (paying 10 1).fetchUnspentOutputs completeEnv w.db =
        .error (.insufficientFunds 1000 11) ∧
      ¬(paying 10 1).ReportsTruthfully completeEnv 0 w.db := by
  have hpending : (paying 1000 0).fetchUnspentOutputs completeEnv thousandReceived.db =
      .error (.fundsPending 1000 0 1000) := by decide +kernel
  have hinsufficient : (paying 10 1).fetchUnspentOutputs completeEnv thousandReceived.db =
      .error (.insufficientFunds 1000 11) := by decide +kernel
  refine ⟨⟨thousandReceived, (Option.some_get _).symm, hpending, fun h => ?_⟩,
    ⟨thousandReceived, (Option.some_get _).symm, hinsufficient, fun h => ?_⟩⟩
  · unfold ReportsTruthfully at h
    rw [hpending] at h
    exact absurd h.2.1 (by decide)
  · unfold ReportsTruthfully at h
    rw [hinsufficient] at h
    exact absurd h.2 (by decide)

end InputSelector

end MinotariWallet
