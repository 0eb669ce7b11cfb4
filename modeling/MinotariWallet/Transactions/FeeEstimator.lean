import Mathlib.Tactic.Ring
import Mathlib.Tactic.Tauto
import MinotariWallet.Transactions.System

set_option autoImplicit false

/-! # `transactions/fee_estimator.rs`

The estimate is computed for a selection, by another route than the fee of the selection itself.
The selector gives the size of one output for all recipient outputs together; the estimator
multiplies it by their number. So the two agree for one recipient only. -/

namespace MinotariWallet

open Sql

inductive FeePriority where
  | slow
  | medium
  | fast
deriving DecidableEq

structure FeeEstimateResult where
  priority : FeePriority
  feePerGram : MicroMinotari
  estimatedFee : MicroMinotari
  totalAmountRequired : MicroMinotari
  inputCount : Nat
deriving DecidableEq

/-- `FeePerGramStat`, of one block of the mempool. -/
structure FeePerGramStat where
  order : Nat
  minFeePerGram : MicroMinotari
  avgFeePerGram : MicroMinotari
  maxFeePerGram : MicroMinotari
deriving DecidableEq

namespace FeeEstimator

/-- The fast, the medium and the slow fee rate. -/
def feeRates : Except String (List FeePerGramStat) →
    MicroMinotari × MicroMinotari × MicroMinotari
  | .ok (first :: rest) =>
    (first.avgFeePerGram, (rest.head?.getD first).avgFeePerGram,
      ((first :: rest).getLast (by simp)).minFeePerGram)
  | _ => (10, 5, 1)

def calculateSingleEstimate (env : TransactionEnv) (priority : FeePriority)
    (feePerGram amount : MicroMinotari) (inputCount outputCount outputSize : Nat) :
    FeeEstimateResult :=
  let fee := env.calculateFee feePerGram 1 inputCount outputCount (outputSize * outputCount)
  { priority, feePerGram
    estimatedFee := fee
    totalAmountRequired := amount + fee
    inputCount }

/-- The recipient outputs, and the change output if there is one. -/
def totalOutputs (selection : UtxoSelection) (numOutputs : Nat) : Nat :=
  if selection.requiresChangeOutput then numOutputs + 1 else numOutputs

/-- The part of `estimate_fees` after the inputs are selected at the fast rate. -/
def estimates (env : TransactionEnv) (stats : Except String (List FeePerGramStat))
    (amount : MicroMinotari) (numOutputs : Nat) (estimatedOutputSize : Option Nat)
    (selection : UtxoSelection) : Except TransactionError (List FeeEstimateResult) :=
  match estimatedOutputSize.elim env.getDefaultFeaturesAndScriptsSize .ok with
  | .error e => .error (.anyhow e)
  | .ok outputSize =>
    let (fastFee, mediumFee, slowFee) := feeRates stats
    .ok ([(.slow, slowFee), (.medium, mediumFee), (.fast, fastFee)].map
      (fun (priority, feePerGram) => calculateSingleEstimate env priority feePerGram amount
        selection.utxos.length (totalOutputs selection numOutputs) outputSize))

end FeeEstimator

/-! ## Linear fees -/

/-- What a kernel, an input and an output weigh in grams, and how many bytes of features and scripts
    weigh one gram. -/
structure TransactionWeight where
  kernelWeight : Nat
  inputWeight : Nat
  outputWeight : Nat
  featuresAndScriptsBytesPerGram : Nat
  bytesPerGram_pos : 0 < featuresAndScriptsBytesPerGram

namespace TransactionWeight

/-- The weight of a size that needs no rounding. -/
def calculate (w : TransactionWeight) (kernels inputs outputs featuresAndScriptsSize : Nat) : Nat :=
  w.kernelWeight * kernels + w.inputWeight * inputs + w.outputWeight * outputs
    + featuresAndScriptsSize / w.featuresAndScriptsBytesPerGram

/-- `calculateFee` charges the rate for every gram. -/
def Charges (w : TransactionWeight)
    (calculateFee : MicroMinotari → Nat → Nat → Nat → Nat → MicroMinotari) : Prop :=
  ∀ feePerGram kernels inputs outputs size, w.featuresAndScriptsBytesPerGram ∣ size →
    calculateFee feePerGram kernels inputs outputs size =
      feePerGram * w.calculate kernels inputs outputs size

end TransactionWeight

/-- The search reports the fees of the inputs that it selects, of the recipient outputs and of the
    change output if there is one. -/
def SearchAddsFees (env : TransactionEnv) : Prop :=
  ∀ utxos params result, env.search utxos params = .ok (some result) →
    result.finalFee = result.selectedUtxos.length * params.feePerInput + params.totalOutputFee
      + if result.hasChange then params.changeFee else 0

namespace InputSelector

variable {env : TransactionEnv} {w : TransactionWeight} {s : InputSelector} {size : Nat}

/-- The two fees of a selection differ by the fee of one output, and the one that applies adds up
    from the kernel, the inputs, the recipient outputs and the change output. -/
theorem select_fees (hsearch : SearchAddsFees env)
    (hsize : s.estimatedOutputSize.elim env.getDefaultFeaturesAndScriptsSize .ok = .ok size)
    {total : MicroMinotari} {uo : List DbWalletOutput} {selection : UtxoSelection}
    (h : s.select env total uo = .ok selection) :
    selection.feeWithChange =
        selection.feeWithoutChange + env.calculateFee s.feePerGram 0 0 1 size ∧
      selection.fee = env.calculateFee s.feePerGram 1 0 0 0
        + selection.utxos.length * env.calculateFee s.feePerGram 0 1 0 0
        + env.calculateFee s.feePerGram 0 0 s.numOutputs size
        + if selection.requiresChangeOutput then env.calculateFee s.feePerGram 0 0 1 size
          else 0 := by
  unfold select at h
  rw [hsize] at h
  dsimp only at h
  split at h
  · cases h
  · cases h
  · next result hresult =>
      have hfinal := hsearch _ _ _ hresult
      cases h
      cases hchange : result.hasChange with
      | true =>
          rw [hchange, if_pos rfl] at hfinal
          simp only [UtxoSelection.fee, if_true, hfinal]
          refine ⟨(Nat.sub_add_cancel ?_).symm, by ac_rfl⟩
          exact (Nat.le_add_left _ _).trans (Nat.le_add_right _ _)
      | false =>
          rw [hchange, if_neg (by simp)] at hfinal
          simp only [UtxoSelection.fee, Bool.false_eq_true, if_false, hfinal, true_and]
          ac_rfl

/-- The selection reports the fee that is estimated for one kernel, the same inputs and as many
    outputs, and its two fees differ by the fee of one output. -/
def ChargesAsEstimated (env : TransactionEnv) (s : InputSelector) (size : Nat)
    (selection : UtxoSelection) : Prop :=
  (∀ priority amount, selection.fee =
    (FeeEstimator.calculateSingleEstimate env priority s.feePerGram amount selection.utxos.length
      (FeeEstimator.totalOutputs selection s.numOutputs) size).estimatedFee) ∧
  selection.feeWithChange - selection.feeWithoutChange =
    env.calculateFee s.feePerGram 0 0 1 size

/-- The estimate exceeds the fee of the selection by the features and scripts of the recipient
    outputs after the first. -/
theorem estimatedFee_eq (hfee : w.Charges env.calculateFee) (hsearch : SearchAddsFees env)
    (hsize : s.estimatedOutputSize.elim env.getDefaultFeaturesAndScriptsSize .ok = .ok size)
    (hdvd : w.featuresAndScriptsBytesPerGram ∣ size) (hn : 1 ≤ s.numOutputs)
    {total : MicroMinotari} {uo : List DbWalletOutput} {selection : UtxoSelection}
    (h : s.select env total uo = .ok selection) (priority : FeePriority)
    (amount : MicroMinotari) :
    (FeeEstimator.calculateSingleEstimate env priority s.feePerGram amount selection.utxos.length
      (FeeEstimator.totalOutputs selection s.numOutputs) size).estimatedFee =
      selection.fee + s.feePerGram *
        (size / w.featuresAndScriptsBytesPerGram * (s.numOutputs - 1)) := by
  obtain ⟨n, hn⟩ : ∃ n, s.numOutputs = n + 1 := ⟨s.numOutputs - 1, by omega⟩
  obtain ⟨grams, rfl⟩ := hdvd
  have hbytes : ∀ k, w.featuresAndScriptsBytesPerGram * grams * k
      / w.featuresAndScriptsBytesPerGram = grams * k := by
    intro k
    rw [Nat.mul_assoc, Nat.mul_div_cancel_left _ w.bytesPerGram_pos]
  have hone := hbytes 1
  rw [Nat.mul_one, Nat.mul_one] at hone
  rw [(select_fees hsearch hsize h).2, hfee _ _ _ _ _ (dvd_zero _), hfee _ _ _ _ _ (dvd_zero _),
    hfee _ _ _ _ _ (dvd_mul_right _ _), hfee _ _ _ _ _ (dvd_mul_right _ _), hone, hn]
  show env.calculateFee _ _ _ _ (_ * _) = _
  rw [hfee _ _ _ _ _ ((dvd_mul_right _ _).mul_right _)]
  unfold TransactionWeight.calculate FeeEstimator.totalOutputs
  rw [hbytes, hone, Nat.zero_div, Nat.add_sub_cancel]
  cases selection.requiresChangeOutput with
  | true =>
      simp only [if_true]
      ring
  | false =>
      simp only [Bool.false_eq_true, if_false]
      ring

/-- Of the estimates for a selection that charges what is estimated, the fast one is its fee: the
    inputs were selected at that rate. -/
theorem fastEstimate_charged {stats : Except String (List FeePerGramStat)} {amount : MicroMinotari}
    {selection : UtxoSelection} {results : List FeeEstimateResult}
    (hsize : s.estimatedOutputSize.elim env.getDefaultFeaturesAndScriptsSize .ok = .ok size)
    (hrate : s.feePerGram = (FeeEstimator.feeRates stats).1)
    (hcharges : ChargesAsEstimated env s size selection)
    (h : FeeEstimator.estimates env stats amount s.numOutputs s.estimatedOutputSize selection =
      .ok results) :
    ∃ result ∈ results, result.priority = .fast ∧ result.estimatedFee = selection.fee := by
  obtain ⟨⟨fast, medium, slow⟩, hrates⟩ : ∃ rates, FeeEstimator.feeRates stats = rates := ⟨_, rfl⟩
  rw [hrates] at hrate
  unfold FeeEstimator.estimates at h
  rw [hsize, hrates] at h
  cases h
  refine ⟨_, List.mem_map.mpr ⟨(.fast, fast), by simp, rfl⟩, rfl, ?_⟩
  rw [hcharges.1 .fast amount, hrate]

/-- A selection charges what is estimated for it exactly when there is one recipient output, or
    features and scripts cost nothing. -/
theorem chargesAsEstimated_iff (hfee : w.Charges env.calculateFee)
    (hsearch : SearchAddsFees env)
    (hsize : s.estimatedOutputSize.elim env.getDefaultFeaturesAndScriptsSize .ok = .ok size)
    (hdvd : w.featuresAndScriptsBytesPerGram ∣ size) (hn : 1 ≤ s.numOutputs) {db : Db}
    {st : Selecting} {selection : UtxoSelection} (h : s.step env db st = .ok (.inr selection)) :
    ChargesAsEstimated env s size selection ↔
      s.numOutputs = 1 ∨ size = 0 ∨ s.feePerGram = 0 := by
  obtain ⟨minHeight, total, hselect⟩ := step_inr h
  have hestimate := estimatedFee_eq hfee hsearch hsize hdvd hn hselect
  have hchange : selection.feeWithChange - selection.feeWithoutChange =
      env.calculateFee s.feePerGram 0 0 1 size :=
    Nat.sub_eq_of_eq_add ((select_fees hsearch hsize hselect).1.trans (Nat.add_comm _ _))
  have hgrams : size / w.featuresAndScriptsBytesPerGram = 0 ↔ size = 0 := by
    obtain ⟨grams, rfl⟩ := hdvd
    rw [Nat.mul_div_cancel_left _ w.bytesPerGram_pos, Nat.mul_eq_zero]
    exact ⟨.inr, fun h => h.resolve_left w.bytesPerGram_pos.ne'⟩
  have hrest : s.numOutputs - 1 = 0 ↔ s.numOutputs = 1 := by omega
  calc
    ChargesAsEstimated env s size selection
      ↔ s.feePerGram * (size / w.featuresAndScriptsBytesPerGram * (s.numOutputs - 1)) = 0 := by
        constructor
        · intro hcharges
          have heq := hcharges.1 .fast 0
          rw [hestimate] at heq
          exact Nat.left_eq_add.mp heq
        · intro hzero
          refine ⟨fun priority amount => ?_, hchange⟩
          rw [hestimate, hzero, Nat.add_zero]
    _ ↔ s.numOutputs = 1 ∨ size = 0 ∨ s.feePerGram = 0 := by
        rw [Nat.mul_eq_zero, Nat.mul_eq_zero, hgrams, hrest]
        tauto

end InputSelector

/-! ## Two recipients -/

def latestWeight : TransactionWeight where
  kernelWeight := 10
  inputWeight := 8
  outputWeight := 53
  featuresAndScriptsBytesPerGram := 16
  bytesPerGram_pos := by decide

/-- `plainTransactionEnv`, where features and scripts weigh something. -/
def weighingEnv : TransactionEnv where
  toScanEnv := plainEnv
  calculateFee := fun feePerGram kernels inputs outputs size =>
    feePerGram * latestWeight.calculate kernels inputs outputs size
  getDefaultFeaturesAndScriptsSize := .ok 16
  search := fun utxos params =>
    .ok ((takeUntilCovered (params.targetAmount + params.totalOutputFee + params.feePerInput)
      utxos).map (fun selected => {
        selectedUtxos := selected
        currentValue := (selected.map (·.output.value)).sum
        hasChange := true
        finalFee := selected.length * params.feePerInput + params.totalOutputFee
          + params.changeFee }))
  search_mem := by
    intro utxos params r h
    obtain ⟨selected, hsel, rfl⟩ := Option.map_eq_some_iff.mp (Except.ok.inj h)
    exact mem_of_takeUntilCovered hsel
  transactionFee := fun inputs => 5 * (10 + 8 * inputs.length + 53 * 2)

theorem latestWeight_charges : latestWeight.Charges weighingEnv.calculateFee :=
  fun _ _ _ _ _ _ => rfl

theorem weighingEnv_searchAddsFees : SearchAddsFees weighingEnv := by
  intro utxos params result h
  obtain ⟨selected, -, rfl⟩ := Option.map_eq_some_iff.mp (Except.ok.inj h)
  rfl

/-- One output of 100000. -/
def oneOutputDb : Db where
  outputs := (AutoTable.empty : AutoTable OutputRow).insert
    (newOutputRow plainEnv.toExternals 1 7 50 ⟨50, 100000, false, false, [], {}⟩ 0 900 0 none none
      0 false)

/-- 1000 to pay, with 16 bytes for each output. -/
def payingTo (numOutputs : Nat) : InputSelector where
  accountId := 1
  confirmationWindow := 0
  amount := 1000
  numOutputs := numOutputs
  feePerGram := 5
  estimatedOutputSize := none

namespace InputSelector

/-- What is selected for the payment. -/
def selectionFor (numOutputs : Nat) : UtxoSelection :=
  ((payingTo numOutputs).select weighingEnv 100000
    (oneOutputDb.fetchUnspentOutputs 1 0)).toOption.getD ⟨[], false, 0, 0, 0⟩

theorem one_recipient_charged_as_estimated :
    (payingTo 1).step weighingEnv oneOutputDb (.fetch 0 100000) = .ok (.inr (selectionFor 1)) ∧
      ChargesAsEstimated weighingEnv (payingTo 1) 16 (selectionFor 1) :=
  have h : (payingTo 1).step weighingEnv oneOutputDb (.fetch 0 100000) =
    .ok (.inr (selectionFor 1)) := by rfl
  ⟨h, (chargesAsEstimated_iff latestWeight_charges weighingEnv_searchAddsFees rfl (by decide)
    (by decide) h).mpr (.inl rfl)⟩

/-- With two recipients the selection pays for the features and scripts of one. -/
theorem two_recipients_charged_less_than_estimated :
    latestWeight.Charges weighingEnv.calculateFee ∧ SearchAddsFees weighingEnv ∧
      (payingTo 2).step weighingEnv oneOutputDb (.fetch 0 100000) =
        .ok (.inr (selectionFor 2)) ∧
      ¬ ChargesAsEstimated weighingEnv (payingTo 2) 16 (selectionFor 2) := by
  refine ⟨latestWeight_charges, weighingEnv_searchAddsFees, rfl, fun h => ?_⟩
  exact absurd (h.1 .fast 0) (by decide)

end InputSelector

end MinotariWallet
