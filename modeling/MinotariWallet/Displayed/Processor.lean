import MinotariWallet.Lib.Removal
import MinotariWallet.Scan.BlockProcessor

set_option autoImplicit false

/-! # `transactions/displayed_transaction_processor`

The builder and the processor that turns the balance changes of a block into displayed
transactions, in exact arithmetic; `Checked` has the functions that add amounts as the release
profile runs them. -/

namespace MinotariWallet

/-- The errors of the processor. `panicked` is an `expect` that fails: the source returns nothing
    then. -/
inductive ProcessorError where
  | dbError (error : WalletDbError)
  | parseError (message : String)
  | missingError (message : String)
  | panicked (message : String)
deriving DecidableEq

def ProcessorError.toString : ProcessorError → String
  | .dbError error =>
    let message := error.toString
    s!"Database execution error: {message}"
  | .parseError message => s!"Failed to parse output data: {message}"
  | .missingError message => s!"Missing data: {message}"
  | .panicked message => message

/-- What the standard library leaves open: the order of equal elements after
    `sort_unstable_by_key`, and the order of `HashMap::into_values`. -/
structure StdOrder where
  sortUnstableByKey {α : Type} (key : α → Int) (l : List α) : List α
  sort_perm {α : Type} (key : α → Int) (l : List α) : (sortUnstableByKey key l).Perm l
  sort_sorted {α : Type} (key : α → Int) (l : List α) :
    (sortUnstableByKey key l).Pairwise (fun a b => key a ≤ key b)
  intoValues {α : Type} (l : List α) : List α
  values_perm {α : Type} (l : List α) : (intoValues l).Perm l

/-- The stable sort, and the order of insertion. -/
def StdOrder.stable : StdOrder where
  sortUnstableByKey := Sql.orderBy
  sort_perm := fun _ l => List.perm_insertionSort _ l
  sort_sorted := fun key l => Sql.sorted_orderBy key l
  intoValues := id
  values_perm := fun l => .refl l

/-! ## `builder.rs` -/

structure DisplayedTransactionBuilder where
  accountId : Option AccountId := none
  direction : Option TransactionDirection := none
  source : Option TransactionSource := none
  status : Option TransactionDisplayStatus := none
  amount : Option MicroMinotari := none
  message : Option Memo := none
  counterpartyAddress : Option TariAddress := none
  blockHeight : Option Nat := none
  blockHash : Option FixedHash := none
  timestamp : Option Timestamp := none
  confirmations : Option Nat := none
  fee : Option MicroMinotari := none
  totalCredit : MicroMinotari := 0
  totalDebit : MicroMinotari := 0
  inputs : List TransactionInput := []
  outputs : List TransactionOutput := []
  outputType : Option OutputType := none
  coinbaseExtra : Option Memo := none
  memoHex : Option Memo := none
  sentOutputHashes : List FixedHash := []

namespace DisplayedTransactionBuilder

/-- The amount is the net value, and the direction follows from the debit. -/
def creditsAndDebits (b : DisplayedTransactionBuilder) (credit debit : MicroMinotari) :
    DisplayedTransactionBuilder :=
  if 0 < debit then
    { b with
      totalCredit := credit, totalDebit := debit
      amount := some (debit - credit), direction := some .outgoing }
  else
    { b with
      totalCredit := credit, totalDebit := debit
      amount := some credit, direction := some .incoming }

def blockchainInfo (b : DisplayedTransactionBuilder) (height : Nat) (hash : FixedHash)
    (timestamp : Timestamp) (confirmations : Nat) : DisplayedTransactionBuilder :=
  { b with
    blockHeight := some height
    timestamp := some timestamp
    confirmations := some confirmations
    blockHash := some hash }

/-- The payment references of the sent outputs in the block, if the block is known. -/
def payrefs (ext : Externals) (b : DisplayedTransactionBuilder) : List PaymentReference :=
  match b.blockHash with
  | none => []
  | some blockHash => b.sentOutputHashes.map (ext.generatePaymentReference blockHash)

def build (ext : Externals) (b : DisplayedTransactionBuilder) (id : TxId) :
    Except ProcessorError DisplayedTransaction :=
  match b.amount with
  | none => .error (.parseError "amount is required")
  | some amount =>
    match b.direction with
    | none => .error (.parseError "direction is required")
    | some direction => .ok {
        id
        direction
        source := b.source.getD .unknown
        status := b.status.getD .pending
        amount
        message := b.message
        counterparty := b.counterpartyAddress
        blockchain := {
          blockHeight := b.blockHeight.getD 0
          timestamp := b.timestamp.getD 0
          confirmations := b.confirmations.getD 0
          blockHash := b.blockHash.getD 0 }
        fee := match direction with
          | .outgoing => b.fee
          | .incoming => none
        details := {
          accountId := b.accountId.getD 0
          totalCredit := b.totalCredit
          totalDebit := b.totalDebit
          inputs := b.inputs
          outputs := b.outputs
          outputType := b.outputType
          coinbaseExtra := b.coinbaseExtra
          memoHex := b.memoHex
          sentOutputHashes := b.sentOutputHashes
          sentPayrefs := b.payrefs ext } }

end DisplayedTransactionBuilder

/-! ## `processor.rs` -/

structure DisplayedTransactionProcessor where
  currentTipHeight : Nat
  reqConfirmations : Nat
  viewKey : PrivateKey

/-- What a transaction shows of an output that was received. -/
def DetectedOutput.toTransactionOutput (output : DetectedOutput) (outputType : OutputType) :
    TransactionOutput where
  hash := output.output.outputHash
  amount := output.output.value
  status := .unspent
  minedInBlockHeight := output.height
  minedInBlockHash := output.minedInBlockHash
  outputType := outputType
  isChange := false

/-- What a transaction shows of an output that was spent. -/
def SpentInput.toTransactionInput (input : SpentInput) : TransactionInput where
  outputHash := input.output.outputHash
  amount := input.output.value
  minedInBlockHash := input.minedInBlock
  matchedOutputId := input.outputId

def DisplayedTransaction.hasOutput (tx : DisplayedTransaction) (hash : FixedHash) : Bool :=
  tx.details.outputs.any (·.hash == hash)

def DisplayedTransaction.hasInput (tx : DisplayedTransaction) (hash : FixedHash) : Bool :=
  tx.details.inputs.any (·.outputHash == hash)

/-- `HashMap::insert` under the transaction's id. -/
def insertUpdated (updated : List DisplayedTransaction) (tx : DisplayedTransaction) :
    List DisplayedTransaction :=
  updated.filter (·.id != tx.id) ++ [tx]

namespace DisplayedTransactionProcessor

variable (ext : Externals) (std : StdOrder) (proc : DisplayedTransactionProcessor)

/-- `calculate_status_and_confirmations`. -/
def calculateStatusAndConfirmations (blockHeight : Nat) : TransactionDisplayStatus × Nat :=
  let confirmations := proc.currentTipHeight - blockHeight
  let status := if proc.reqConfirmations ≤ confirmations then .confirmed else .unconfirmed
  (status, confirmations)

/-- The clone of a stored transaction that a change of the block updates. -/
def updatedBy (tx : DisplayedTransaction) (height : Nat) (effectiveDate : Timestamp) :
    DisplayedTransaction :=
  { tx with
    blockchain := { tx.blockchain with
      blockHeight := height
      timestamp := effectiveDate
      confirmations := proc.currentTipHeight - height }
    status :=
      if proc.reqConfirmations ≤ proc.currentTipHeight - height then .confirmed
      else .unconfirmed }

/-- The loops over the changes of the block: a change that a stored transaction knows updates it,
    the others are to be shown in new transactions. -/
def matchChanges {χ : Type} (knows : DisplayedTransaction → χ → Bool)
    (update : DisplayedTransaction → χ → DisplayedTransaction)
    (current : List DisplayedTransaction) :
    List χ → List DisplayedTransaction → List DisplayedTransaction × List χ
  | [], updated => (updated, [])
  | change :: changes, updated =>
      match current.find? (knows · change) with
      | some tx =>
          matchChanges knows update current changes (insertUpdated updated (update tx change))
      | none =>
          let (updated, unmatched) := matchChanges knows update current changes updated
          (updated, change :: unmatched)

/-- `'output_loop`. -/
def matchCredits := matchChanges
  (fun tx (change : BalanceChange × DetectedOutput) => tx.hasOutput change.2.output.outputHash)
  (fun tx change => proc.updatedBy tx change.2.height change.1.effectiveDate)

/-- `'input_loop`. -/
def matchDebits := matchChanges
  (fun tx (change : BalanceChange × SpentInput) => tx.hasInput change.2.output.outputHash)
  (fun tx change => proc.updatedBy tx change.2.minedInBlockHeight change.1.effectiveDate)

/-- A transaction for a coinbase output. -/
def coinbaseTransaction (accumulator : BlockEventAccumulator)
    (change : BalanceChange × DetectedOutput) : Except ProcessorError DisplayedTransaction :=
  let (balanceChange, output) := change
  let (initialStatus, initialConfirmations) := proc.calculateStatusAndConfirmations output.height
  let memo := MemoInfo.fromOutput output.output
  let builder : DisplayedTransactionBuilder := {
    accountId := some accumulator.accountId
    source := some .coinbase
    status := some initialStatus
    outputs := [output.toTransactionOutput .coinbase]
    message := memo.parsed
    memoHex := memo.hex
    outputType := some .coinbase
    coinbaseExtra := some output.output.coinbaseExtra }
  ((builder.creditsAndDebits balanceChange.balanceCredit 0).blockchainInfo accumulator.height
    output.minedInBlockHash balanceChange.effectiveDate initialConfirmations).build ext
      (ext.newDeterministic proc.viewKey output.output.outputHash)

/-- A transaction that received one output and spent the given inputs. -/
def transferTransaction (accumulator : BlockEventAccumulator)
    (change : BalanceChange × DetectedOutput) (txInputs : List TransactionInput)
    (debitValue : MicroMinotari) : Except ProcessorError DisplayedTransaction :=
  let (balanceChange, output) := change
  let (initialStatus, initialConfirmations) := proc.calculateStatusAndConfirmations output.height
  let memo := MemoInfo.fromOutput output.output
  let builder : DisplayedTransactionBuilder := {
    accountId := some accumulator.accountId
    source := some .transfer
    status := some initialStatus
    counterpartyAddress := output.output.paymentId.senderAddress
    fee := output.output.paymentId.fee
    message := memo.parsed
    memoHex := memo.hex
    outputs := [output.toTransactionOutput .standard]
    outputType := some .standard
    sentOutputHashes := output.output.paymentId.sentHashes.getD []
    inputs := txInputs }
  ((builder.creditsAndDebits balanceChange.balanceCredit debitValue).blockchainInfo
    accumulator.height output.minedInBlockHash balanceChange.effectiveDate
    initialConfirmations).build ext (ext.newDeterministic proc.viewKey output.output.outputHash)

/-- A transaction for an output that nothing spent belongs to. -/
def receivedTransaction (accumulator : BlockEventAccumulator)
    (change : BalanceChange × DetectedOutput) : Except ProcessorError DisplayedTransaction :=
  proc.transferTransaction ext accumulator change [] 0

/-- A transaction for an input that no change output belongs to. -/
def spentTransaction (accumulator : BlockEventAccumulator) (change : BalanceChange × SpentInput) :
    Except ProcessorError DisplayedTransaction :=
  let (balanceChange, input) := change
  let (initialStatus, initialConfirmations) :=
    proc.calculateStatusAndConfirmations input.minedInBlockHeight
  let builder : DisplayedTransactionBuilder := {
    accountId := some accumulator.accountId
    source := some .transfer
    status := some initialStatus
    inputs := [input.toTransactionInput] }
  ((builder.creditsAndDebits 0 balanceChange.balanceDebit).blockchainInfo accumulator.height
    input.minedInBlock balanceChange.effectiveDate initialConfirmations).build ext
      (ext.newDeterministic proc.viewKey input.output.outputHash)

/-! ### `solve_back_track` -/

/-- The inner `back_track`: `vals` are the values from `step` on. The flag says whether the target
    was reached, by the values whose entry in the assignment is set. -/
def backTrack (suffix : List MicroMinotari) (target : MicroMinotari) :
    List MicroMinotari → Nat → MicroMinotari → List Bool → Bool × List Bool
  | [], _, current, assignment => (current == target, assignment)
  | n :: vals, step, current, assignment =>
      if current = target then (true, assignment)
      else
        match suffix[step + 1]? with
        | none => (false, assignment)
        | some rem =>
            if current + rem + n < target then (false, assignment)
            else if target < current then (false, assignment)
            else if assignment.length ≤ step then (false, assignment)
            else
              let taken :=
                if current + n ≤ target then
                  backTrack suffix target vals (step + 1) (current + n) (assignment.set step true)
                else (false, assignment)
              if taken.1 then taken
              else backTrack suffix target vals (step + 1) current (taken.2.set step false)

/-- The sums of the values from each index on. -/
def suffixSums : List MicroMinotari → List MicroMinotari
  | [] => [0]
  | v :: vals => (v + (suffixSums vals).headD 0) :: suffixSums vals

/-- The indices of the pool whose values can contribute; `None` for an index out of bounds. -/
def candidates (nums : List MicroMinotari) (target : MicroMinotari) :
    List Nat → Option (List Nat)
  | [] => some []
  | index :: pool => do
      let n ← nums[index]?
      let rest ← candidates nums target pool
      if n ≤ target then pure (index :: rest) else pure rest

/-- `backtrack_subset`. -/
def backtrackSubset (pool : List Nat) (nums : List MicroMinotari) (target : MicroMinotari) :
    Option (List Nat) := do
  let unsorted ← candidates nums target pool
  let sorted := std.sortUnstableByKey (fun i => -(nums.getD i 0 : Int)) unsorted
  let vals := sorted.map (nums.getD · 0)
  let suffix := suffixSums vals
  let total ← suffix.head?
  if total < target then none
  else
    let (found, assignment) := backTrack suffix target vals 0 0 (List.replicate vals.length false)
    if found then some (((sorted.zip assignment).filter (·.2)).map (·.1)) else none

/-- The loop over the targets: each with the indices used for it, which the later ones cannot
    use. -/
def solveTargets (nums : List MicroMinotari) :
    List (MicroMinotari × Nat) → List Nat → List (Nat × List Nat)
  | [], _ => []
  | (target, originalOutputIdx) :: targets, remaining =>
      let used := (backtrackSubset std remaining nums target).getD []
      (originalOutputIdx, used) ::
        solveTargets nums targets (remaining.filter (fun i => !used.contains i))

def solveBackTrack (inputs : List (BalanceChange × SpentInput))
    (targets : List (MicroMinotari × Nat)) : List (Nat × List Nat) :=
  let nums := inputs.map (·.2.output.value)
  solveTargets std (std.sortUnstableByKey (fun v => (v : Int)) nums)
    (std.sortUnstableByKey (fun t => (t.1 : Int)) targets) (List.range nums.length)

/-! ### `search_inputs` -/

/-- What the change output's transaction has spent, by the amount that it claims to have sent. -/
def totalSend (output : DetectedOutput) (amount : MicroMinotari) : MicroMinotari :=
  amount + output.output.value + output.output.paymentId.fee.getD 0

/-- `inputs.get(index)` for the indices of a solution. -/
def solutionInputs (inputs : List (BalanceChange × SpentInput)) :
    List Nat → Except ProcessorError (List SpentInput)
  | [] => .ok []
  | index :: indices =>
      match inputs[index]? with
      | none => .error (.missingError "Input index out of bounds")
      | some (_, input) => do
          let rest ← solutionInputs inputs indices
          pure (input :: rest)

/-- What the loop over the solutions has gathered. -/
structure SearchState where
  result : List DisplayedTransaction := []
  unmatchedIndex : List Nat
  usedInputs : List Nat := []

/-- The body of the loop over the solutions. -/
def processSolution (accumulator : BlockEventAccumulator)
    (inputs : List (BalanceChange × SpentInput)) (outputs : List (BalanceChange × DetectedOutput))
    (st : SearchState) (solution : Nat × List Nat) : Except ProcessorError SearchState := do
  let (outputIndex, indices) := solution
  let spent ← solutionInputs inputs indices
  let balance := (spent.map (·.output.value)).sum
  match outputs[outputIndex]? with
  | none => .error (.missingError "Output index out of bounds")
  | some change =>
    match change.2.output.paymentId.transactionInfoDetails with
    | none => .error (.missingError "Missing Output details")
    | some (_, amount) =>
      if totalSend change.2 amount ≠ balance then
        pure { st with unmatchedIndex := st.unmatchedIndex ++ [outputIndex] }
      else do
        let tx ← proc.transferTransaction ext accumulator change
          (spent.map (·.toTransactionInput)) balance
        pure {
          result := st.result ++ [tx]
          unmatchedIndex := st.unmatchedIndex
          usedInputs := st.usedInputs ++ indices }

/-- `inputs.remove(index)` for the indices of the heap, the largest first. -/
def removeUsed (inputs : List (BalanceChange × SpentInput)) (usedInputs : List Nat) :
    Except ProcessorError (List (BalanceChange × SpentInput)) := do
  let (rest, _) ← Removal.takeOut (.panicked "removal index should be < len") (fun _ => true)
    (fun x => .ok x) (usedInputs.insertionSort (· ≥ ·)) inputs
  pure rest

/-- The loop body of `handle_unmatched_inputs_outputs` over the outputs. -/
def unmatchedOutput (accumulator : BlockEventAccumulator)
    (outputs : List (BalanceChange × DetectedOutput)) (index : Nat) :
    Except ProcessorError DisplayedTransaction :=
  match outputs[index]? with
  | none => .error (.missingError "Output index out of bounds")
  | some change => proc.receivedTransaction ext accumulator change

/-- `handle_unmatched_inputs_outputs`. -/
def handleUnmatchedInputsOutputs (accumulator : BlockEventAccumulator)
    (inputs : List (BalanceChange × SpentInput)) (outputs : List (BalanceChange × DetectedOutput))
    (unmatchedOutputs : List Nat) : Except ProcessorError (List DisplayedTransaction) := do
  let received ← unmatchedOutputs.mapM (proc.unmatchedOutput ext accumulator outputs)
  let spent ← inputs.mapM (proc.spentTransaction ext accumulator)
  pure (received ++ spent)

def searchInputs (accumulator : BlockEventAccumulator)
    (inputs : List (BalanceChange × SpentInput)) (outputs : List (BalanceChange × DetectedOutput)) :
    Except ProcessorError (List DisplayedTransaction) := do
  let targets := outputs.zipIdx.filterMap (fun (change, i) =>
    change.2.output.paymentId.transactionInfoDetails.map (fun details =>
      (totalSend change.2 details.2, i)))
  let unmatchedIndex := (outputs.zipIdx.filter (fun (change, _) =>
    change.2.output.paymentId.transactionInfoDetails.isNone)).map (·.2)
  let st ← (solveBackTrack std inputs targets).foldlM
    (proc.processSolution ext accumulator inputs outputs) { unmatchedIndex }
  let rest ← removeUsed inputs st.usedInputs
  let unmatched ← proc.handleUnmatchedInputsOutputs ext accumulator rest outputs st.unmatchedIndex
  pure (st.result ++ unmatched)

/-- `create_new_updated_display_transactions`: the updated and the new transactions. -/
def createNewUpdatedDisplayTransactions (accumulator : BlockEventAccumulator)
    (currentDisplayTransactions : List DisplayedTransaction) :
    Except ProcessorError (List DisplayedTransaction × List DisplayedTransaction) := do
  let (updatedByCredits, newCredit) := proc.matchCredits currentDisplayTransactions
    accumulator.creditBalanceChanges []
  let (updated, unsortedDebit) := proc.matchDebits currentDisplayTransactions
    accumulator.debitBalanceChanges updatedByCredits
  let newDebit := Sql.orderBy (fun change => (change.2.output.value : Int)) unsortedDebit
  let (newCredit, coinbases) ← Removal.takeOut (.panicked "should exist") (·.2.output.isCoinbase)
    (proc.coinbaseTransaction ext accumulator) (List.range newCredit.length).reverse newCredit
  let (newCredit, received) ← Removal.takeOut (.panicked "should exist")
    (·.2.output.paymentId.transactionInfoDetails.isNone)
    (proc.receivedTransaction ext accumulator) (List.range newCredit.length).reverse newCredit
  let found ← proc.searchInputs ext std accumulator newDebit newCredit
  pure (std.intoValues updated, coinbases ++ received ++ found)

end DisplayedTransactionProcessor

end MinotariWallet
