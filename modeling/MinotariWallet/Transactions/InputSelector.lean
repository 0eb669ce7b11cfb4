import MinotariWallet.Db.ScannedTipBlocks
import MinotariWallet.Scan.BlockProcessor

set_option autoImplicit false

/-! # `transactions/input_selector.rs`

Selection reads the database in four statements on a plain connection, so other calls run between
them: `Selecting` is where it stands. The search itself is another crate's. -/

namespace MinotariWallet

open Sql

/-- The errors of the transaction code; an `anyhow` error is its text. -/
inductive TransactionError where
  | db (e : WalletDbError)
  | fundsPending (available pending required : MicroMinotari)
  | insufficientFunds (available required : MicroMinotari)
  | serializationError (message : String)
  | serviceError (message : String)
  | anyhow (message : String)
deriving DecidableEq

structure UtxoSelection where
  utxos : List DbWalletOutput
  requiresChangeOutput : Bool
  totalValue : MicroMinotari
  feeWithoutChange : MicroMinotari
  feeWithChange : MicroMinotari
deriving DecidableEq

def UtxoSelection.fee (s : UtxoSelection) : MicroMinotari :=
  if s.requiresChangeOutput then s.feeWithChange else s.feeWithoutChange

/-- The parameters of `BranchAndBoundUtxoSelectionBuilder`. -/
structure SearchParameters where
  targetAmount : MicroMinotari
  feePerInput : MicroMinotari
  totalOutputFee : MicroMinotari
  changeFee : MicroMinotari
deriving DecidableEq

/-- What the search returns. -/
structure SearchResult where
  selectedUtxos : List DbWalletOutput
  currentValue : MicroMinotari
  hasChange : Bool
  finalFee : MicroMinotari
deriving DecidableEq

/-- The functions of other crates that the transaction code calls. -/
structure TransactionEnv extends ScanEnv where
  /-- `Fee::calculate(fee_per_gram, kernels, inputs, outputs, features_and_scripts_size)`. -/
  calculateFee : MicroMinotari → Nat → Nat → Nat → Nat → MicroMinotari
  getDefaultFeaturesAndScriptsSize : Except String Nat
  /-- `build()` and `search()`. -/
  search : List DbWalletOutput → SearchParameters → Except String (Option SearchResult)
  /-- The search selects among the outputs it is given. -/
  search_mem : ∀ utxos params r, search utxos params = .ok (some r) →
    ∀ u ∈ r.selectedUtxos, u ∈ utxos
  /-- The fee of a one-sided transaction with these inputs. -/
  transactionFee : List WalletOutput → MicroMinotari

structure InputSelector where
  accountId : AccountId
  confirmationWindow : Nat
  amount : MicroMinotari
  numOutputs : Nat
  feePerGram : MicroMinotari
  estimatedOutputSize : Option Nat
deriving DecidableEq

/-- The statement of `fetch_unspent_outputs` that runs next, with what those before it read. -/
inductive Selecting where
  | tip
  | totals (minHeight : Nat)
  | balance (minHeight : Nat) (lockedAmount : MicroMinotari)
  | fetch (minHeight : Nat) (totalUnspentBalance : MicroMinotari)
deriving DecidableEq

namespace InputSelector

/-- The part of `fetch_unspent_outputs` after the outputs are read. -/
def select (env : TransactionEnv) (s : InputSelector) (totalUnspentBalance : MicroMinotari)
    (uo : List DbWalletOutput) : Except TransactionError UtxoSelection :=
  match s.estimatedOutputSize.elim env.getDefaultFeaturesAndScriptsSize .ok with
  | .error e => .error (.serializationError e)
  | .ok featuresAndScriptsByteSize =>
    let kernelFee := env.calculateFee s.feePerGram 1 0 0 0
    let defaultOutputFee := env.calculateFee s.feePerGram 0 0 1 featuresAndScriptsByteSize
    let outputFee := env.calculateFee s.feePerGram 0 0 s.numOutputs featuresAndScriptsByteSize
    let inputFee := env.calculateFee s.feePerGram 0 1 0 0
    match env.search uo {
        targetAmount := s.amount + kernelFee
        feePerInput := inputFee
        totalOutputFee := outputFee
        changeFee := defaultOutputFee } with
    | .error e => .error (.serviceError e)
    | .ok none => .error (.insufficientFunds totalUnspentBalance (s.amount + 1))
    | .ok (some selection) =>
      let finalFee := selection.finalFee + kernelFee
      .ok {
        utxos := selection.selectedUtxos
        requiresChangeOutput := selection.hasChange
        totalValue := selection.currentValue
        feeWithoutChange :=
          if selection.hasChange then finalFee - defaultOutputFee else finalFee
        feeWithChange := if selection.hasChange then finalFee else finalFee + defaultOutputFee }

/-- One statement of `fetch_unspent_outputs`. -/
def step (env : TransactionEnv) (s : InputSelector) (db : Db) :
    Selecting → Except TransactionError (Selecting ⊕ UtxoSelection)
  | .tip =>
    let tip := db.getLatestScannedTipBlockHeightByAccount s.accountId
    .ok (.inl (.totals (tip.getD 0 - s.confirmationWindow)))
  | .totals minHeight =>
    match db.getOutputTotalsForAccount s.accountId with
    | .error e => .error (.db e)
    | .ok (lockedAmount, _, _) => .ok (.inl (.balance minHeight lockedAmount))
  | .balance minHeight lockedAmount =>
    match db.getTotalUnspentBalance s.accountId with
    | .error e => .error (.db e)
    | .ok availableBalance =>
      if availableBalance ≤ s.amount ∧ s.amount ≤ availableBalance + lockedAmount then
        .error (.fundsPending availableBalance lockedAmount s.amount)
      else .ok (.inl (.fetch minHeight availableBalance))
  | .fetch minHeight totalUnspentBalance =>
    match s.select env totalUnspentBalance (db.fetchUnspentOutputs s.accountId minHeight) with
    | .error e => .error e
    | .ok selection => .ok (.inr selection)

/-- What is selected was among the unspent outputs read. -/
theorem select_mem {env : TransactionEnv} {s : InputSelector} {total : MicroMinotari}
    {uo : List DbWalletOutput} {selection : UtxoSelection}
    (h : s.select env total uo = .ok selection) : ∀ u ∈ selection.utxos, u ∈ uo := by
  unfold select at h
  split at h
  · cases h
  · dsimp only at h
    split at h
    · cases h
    · cases h
    · next result hr =>
        cases h
        exact env.search_mem uo _ result hr

/-- A selection is made from the unspent outputs read in the last statement. -/
theorem step_inr {env : TransactionEnv} {s : InputSelector} {db : Db} {st : Selecting}
    {selection : UtxoSelection} (h : s.step env db st = .ok (.inr selection)) :
    ∃ minHeight total,
      s.select env total (db.fetchUnspentOutputs s.accountId minHeight) = .ok selection := by
  cases st with
  | tip => cases h
  | totals minHeight =>
      simp only [step] at h
      split at h <;> cases h
  | balance minHeight lockedAmount =>
      simp only [step] at h
      split at h
      · cases h
      · split at h <;> cases h
  | fetch minHeight total =>
      simp only [step] at h
      split at h <;> cases h
      exact ⟨minHeight, total, by assumption⟩

end InputSelector

end MinotariWallet
