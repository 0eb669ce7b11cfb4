import MinotariWallet.Displayed.Processor
import MinotariWallet.Lib.Refines

set_option autoImplicit false

/-! # The processor with overflow checks

The release profile is built with `overflow-checks`, so an addition of amounts that does not fit
into 64 bits panics. The functions of `processor.rs` that add amounts are given here with that
check; what they return is what they return in exact arithmetic. -/

namespace MinotariWallet

/-- The addition of two `MicroMinotari`. -/
def MicroMinotari.add (a b : MicroMinotari) : Except ProcessorError MicroMinotari :=
  if a + b < 2 ^ 64 then .ok (a + b) else .error (.panicked "attempt to add with overflow")

namespace DisplayedTransactionProcessor

namespace Checked

variable (ext : Externals) (std : StdOrder) (proc : DisplayedTransactionProcessor)

/-- The inner `back_track`. -/
def backTrack (suffix : List MicroMinotari) (target : MicroMinotari) :
    List MicroMinotari → Nat → MicroMinotari → List Bool → Except ProcessorError (Bool × List Bool)
  | [], _, current, assignment => .ok (current == target, assignment)
  | n :: vals, step, current, assignment =>
      if current = target then .ok (true, assignment)
      else
        match suffix[step + 1]? with
        | none => .ok (false, assignment)
        | some rem => do
            let withRest ← MicroMinotari.add current rem
            let withAll ← MicroMinotari.add withRest n
            if withAll < target then .ok (false, assignment)
            else if target < current then .ok (false, assignment)
            else if assignment.length ≤ step then .ok (false, assignment)
            else do
              let withThis ← MicroMinotari.add current n
              let taken ←
                if withThis ≤ target then
                  backTrack suffix target vals (step + 1) withThis (assignment.set step true)
                else .ok (false, assignment)
              if taken.1 then .ok taken
              else backTrack suffix target vals (step + 1) current (taken.2.set step false)

def suffixSums : List MicroMinotari → Except ProcessorError (List MicroMinotari)
  | [] => .ok [0]
  | v :: vals => do
      let suffix ← suffixSums vals
      let total ← MicroMinotari.add (suffix.headD 0) v
      pure (total :: suffix)

def backtrackSubset (pool : List Nat) (nums : List MicroMinotari) (target : MicroMinotari) :
    Except ProcessorError (Option (List Nat)) :=
  match candidates nums target pool with
  | none => .ok none
  | some unsorted => do
      let sorted := std.sortUnstableByKey (fun i => -(nums.getD i 0 : Int)) unsorted
      let vals := sorted.map (nums.getD · 0)
      let suffix ← suffixSums vals
      match suffix.head? with
      | none => pure none
      | some total =>
          if total < target then pure none
          else do
            let (found, assignment) ←
              backTrack suffix target vals 0 0 (List.replicate vals.length false)
            pure (if found then some (((sorted.zip assignment).filter (·.2)).map (·.1)) else none)

/-- The loop over the targets. -/
def solveTargets (nums : List MicroMinotari) :
    List (MicroMinotari × Nat) → List Nat → Except ProcessorError (List (Nat × List Nat))
  | [], _ => .ok []
  | (target, originalOutputIdx) :: targets, remaining => do
      let subset ← backtrackSubset std remaining nums target
      let used := subset.getD []
      let later ← solveTargets nums targets (remaining.filter (fun i => !used.contains i))
      pure ((originalOutputIdx, used) :: later)

def solveBackTrack (inputs : List (BalanceChange × SpentInput))
    (targets : List (MicroMinotari × Nat)) : Except ProcessorError (List (Nat × List Nat)) :=
  let nums := inputs.map (·.2.output.value)
  solveTargets std (std.sortUnstableByKey (fun v => (v : Int)) nums)
    (std.sortUnstableByKey (fun t => (t.1 : Int)) targets) (List.range nums.length)

/-- `amount + value + fee`. -/
def totalSend (output : DetectedOutput) (amount : MicroMinotari) :
    Except ProcessorError MicroMinotari := do
  let withValue ← MicroMinotari.add amount output.output.value
  MicroMinotari.add withValue (output.output.paymentId.fee.getD 0)

/-- The loop over the outputs that builds the targets. -/
def searchTargets : List ((BalanceChange × DetectedOutput) × Nat) →
    Except ProcessorError (List (MicroMinotari × Nat))
  | [] => .ok []
  | (change, i) :: outputs =>
      match change.2.output.paymentId.transactionInfoDetails with
      | none => searchTargets outputs
      | some (_, amount) => do
          let total ← totalSend change.2 amount
          let targets ← searchTargets outputs
          pure ((total, i) :: targets)

/-- The loop over the indices of a solution: the inputs, and their sum from `balance` on. -/
def gatherInputs (inputs : List (BalanceChange × SpentInput)) :
    List Nat → MicroMinotari → Except ProcessorError (List SpentInput × MicroMinotari)
  | [], balance => .ok ([], balance)
  | index :: indices, balance =>
      match inputs[index]? with
      | none => .error (.missingError "Input index out of bounds")
      | some (_, input) => do
          let balance ← MicroMinotari.add balance input.output.value
          let (rest, balance) ← gatherInputs inputs indices balance
          pure (input :: rest, balance)

/-- The body of the loop over the solutions. -/
def processSolution (accumulator : BlockEventAccumulator)
    (inputs : List (BalanceChange × SpentInput)) (outputs : List (BalanceChange × DetectedOutput))
    (st : SearchState) (solution : Nat × List Nat) : Except ProcessorError SearchState := do
  let (outputIndex, indices) := solution
  let (spent, balance) ← gatherInputs inputs indices 0
  match outputs[outputIndex]? with
  | none => .error (.missingError "Output index out of bounds")
  | some change =>
    match change.2.output.paymentId.transactionInfoDetails with
    | none => .error (.missingError "Missing Output details")
    | some (_, amount) => do
      let total ← totalSend change.2 amount
      if total ≠ balance then
        pure { st with unmatchedIndex := st.unmatchedIndex ++ [outputIndex] }
      else do
        let tx ← proc.transferTransaction ext accumulator change
          (spent.map (·.toTransactionInput)) balance
        pure {
          result := st.result ++ [tx]
          unmatchedIndex := st.unmatchedIndex
          usedInputs := st.usedInputs ++ indices }

def searchInputs (accumulator : BlockEventAccumulator)
    (inputs : List (BalanceChange × SpentInput)) (outputs : List (BalanceChange × DetectedOutput)) :
    Except ProcessorError (List DisplayedTransaction) := do
  let targets ← searchTargets outputs.zipIdx
  let unmatchedIndex := (outputs.zipIdx.filter (fun (change, _) =>
    change.2.output.paymentId.transactionInfoDetails.isNone)).map (·.2)
  let solutions ← solveBackTrack std inputs targets
  let st ← solutions.foldlM (processSolution ext proc accumulator inputs outputs)
    { unmatchedIndex }
  let rest ← removeUsed inputs st.usedInputs
  let unmatched ← proc.handleUnmatchedInputsOutputs ext accumulator rest outputs st.unmatchedIndex
  pure (st.result ++ unmatched)

def createNewUpdatedDisplayTransactions (accumulator : BlockEventAccumulator)
    (currentDisplayTransactions : List DisplayedTransaction) :
    Except ProcessorError (List DisplayedTransaction × List DisplayedTransaction) := do
  let (updatedByCredits, newCredit) := proc.matchCredits currentDisplayTransactions
    accumulator.creditBalanceChanges []
  let (updated, unsortedDebit) := proc.matchDebits currentDisplayTransactions
    accumulator.debitBalanceChanges updatedByCredits
  let newDebit := Sql.orderBy (fun change => (change.2.output.value : Int)) unsortedDebit
  let (newCredit, coinbases) ← Removal.takeOut (.panicked "should exist") (·.2.output.isCoinbase)
    (proc.coinbaseTransaction ext accumulator) (List.range newCredit.length).reverse newCredit
  let (newCredit, received) ← Removal.takeOut (.panicked "should exist")
    (·.2.output.paymentId.transactionInfoDetails.isNone)
    (proc.receivedTransaction ext accumulator) (List.range newCredit.length).reverse newCredit
  let found ← searchInputs ext std proc accumulator newDebit newCredit
  pure (std.intoValues updated, coinbases ++ received ++ found)

/-! ## What is returned is exact -/

theorem add_refines (a b : MicroMinotari) : Refines (MicroMinotari.add a b) (.ok (a + b)) := .guard

variable {ext std proc} {accumulator : BlockEventAccumulator}
  {inputs : List (BalanceChange × SpentInput)} {outputs : List (BalanceChange × DetectedOutput)}

theorem backTrack_refines {suffix : List MicroMinotari} {target : MicroMinotari}
    (vals : List MicroMinotari) (step : Nat) (current : MicroMinotari) (assignment : List Bool) :
    Refines (Checked.backTrack suffix target vals step current assignment)
      (.ok (DisplayedTransactionProcessor.backTrack suffix target vals step current
        assignment)) := by
  induction vals generalizing step current assignment with
  | nil => exact .refl _
  | cons n vals ih =>
      rw [Checked.backTrack, DisplayedTransactionProcessor.backTrack]
      split
      · exact .refl _
      cases suffix[step + 1]? with
      | none => exact .refl _
      | some rem =>
          refine .bind_ok (add_refines current rem) (.bind_ok (add_refines _ n) ?_)
          dsimp only
          split
          · exact .refl _
          split
          · exact .refl _
          split
          · exact .refl _
          refine .bind_ok (add_refines current n) ?_
          split
          · refine .bind_ok (ih _ _ _) ?_
            split
            · exact .refl _
            · exact ih _ _ _
          · exact ih _ _ _

theorem suffixSums_refines (vals : List MicroMinotari) :
    Refines (Checked.suffixSums vals)
      (.ok (DisplayedTransactionProcessor.suffixSums vals)) := by
  induction vals with
  | nil => exact .refl _
  | cons v vals ih =>
      rw [Checked.suffixSums, DisplayedTransactionProcessor.suffixSums, add_comm v]
      exact .bind_ok ih (.bind_ok (add_refines _ v) (.refl _))

theorem backtrackSubset_refines (pool : List Nat) (nums : List MicroMinotari)
    (target : MicroMinotari) :
    Refines (Checked.backtrackSubset std pool nums target)
      (.ok (DisplayedTransactionProcessor.backtrackSubset std pool nums target)) := by
  rw [Checked.backtrackSubset, DisplayedTransactionProcessor.backtrackSubset]
  cases candidates nums target pool with
  | none => exact .refl _
  | some unsorted =>
      refine .bind_ok (suffixSums_refines _) ?_
      simp only [Option.bind_eq_bind, Option.bind_some]
      cases (DisplayedTransactionProcessor.suffixSums _).head? with
      | none => exact .refl _
      | some total =>
          simp only [Option.bind_some]
          split
          · exact .refl _
          · exact .bind_ok (backTrack_refines _ _ _ _) (.refl _)

theorem solveTargets_refines {nums : List MicroMinotari} (targets : List (MicroMinotari × Nat))
    (remaining : List Nat) :
    Refines (Checked.solveTargets std nums targets remaining)
      (.ok (DisplayedTransactionProcessor.solveTargets std nums targets remaining)) := by
  induction targets generalizing remaining with
  | nil => exact .refl _
  | cons target targets ih =>
      exact .bind_ok (backtrackSubset_refines _ _ _) (.bind_ok (ih _) (.refl _))

theorem totalSend_refines (output : DetectedOutput) (amount : MicroMinotari) :
    Refines (Checked.totalSend output amount)
      (.ok (DisplayedTransactionProcessor.totalSend output amount)) :=
  .bind_ok (add_refines _ _) (add_refines _ _)

theorem searchTargets_refines (outputs : List ((BalanceChange × DetectedOutput) × Nat)) :
    Refines (Checked.searchTargets outputs)
      (.ok (outputs.filterMap (fun (change, i) =>
        change.2.output.paymentId.transactionInfoDetails.map (fun details =>
          (DisplayedTransactionProcessor.totalSend change.2 details.2, i))))) := by
  induction outputs with
  | nil => exact .refl _
  | cons output outputs ih =>
      rw [Checked.searchTargets]
      cases hinfo : output.1.2.output.paymentId.transactionInfoDetails with
      | none => simpa [hinfo] using ih
      | some details =>
          rw [List.filterMap_cons_some (by simp only [hinfo, Option.map_some]; rfl)]
          exact .bind_ok (totalSend_refines _ _) (.bind_ok ih (.refl _))

/-- The inputs of a solution, and what they are worth. -/
theorem gatherInputs_refines (indices : List Nat) (balance : MicroMinotari) :
    Refines (Checked.gatherInputs inputs indices balance)
      (solutionInputs inputs indices >>= fun spent =>
        .ok (spent, balance + (spent.map (·.output.value)).sum)) := by
  induction indices generalizing balance with
  | nil => exact .refl _
  | cons index indices ih =>
      rw [Checked.gatherInputs, solutionInputs]
      cases inputs[index]? with
      | none => exact .error _
      | some input =>
          refine .bind_ok (add_refines balance input.2.output.value) ?_
          have hrest := (ih (balance + input.2.output.value)).bind
            (fun r => .refl (pure (input.2 :: r.1, r.2)))
          simpa [bind_assoc, add_assoc] using hrest

theorem processSolution_refines (st : SearchState) (solution : Nat × List Nat) :
    Refines (Checked.processSolution ext proc accumulator inputs outputs st solution)
      (proc.processSolution ext accumulator inputs outputs st solution) := by
  refine .bind_map (gatherInputs_refines solution.2 0) (fun spent => ?_)
  rw [zero_add]
  cases outputs[solution.1]? with
  | none => exact .refl _
  | some change =>
      dsimp only
      cases change.2.output.paymentId.transactionInfoDetails with
      | none => exact .refl _
      | some details => exact .bind_ok (totalSend_refines change.2 details.2) (.refl _)

theorem searchInputs_refines :
    Refines (Checked.searchInputs ext std proc accumulator inputs outputs)
      (proc.searchInputs ext std accumulator inputs outputs) := by
  refine .bind_ok (searchTargets_refines outputs.zipIdx) ?_
  refine .bind_ok (solveTargets_refines _ _) ?_
  exact .bind (.foldlM processSolution_refines _ _) (fun st => .refl _)

/-- What the processor returns is what it returns in exact arithmetic. -/
theorem createNewUpdatedDisplayTransactions_refines (current : List DisplayedTransaction) :
    Refines (Checked.createNewUpdatedDisplayTransactions ext std proc accumulator current)
      (proc.createNewUpdatedDisplayTransactions ext std accumulator current) := by
  refine .bind (.refl _) (fun coinbases => ?_)
  refine .bind (.refl _) (fun received => ?_)
  exact .bind searchInputs_refines (fun found => .refl _)

end Checked

end DisplayedTransactionProcessor

/-- The scanner with this processor of displayed transactions. -/
def Externals.scanEnv (ext : Externals) (std : StdOrder) : ScanEnv where
  toExternals := ext
  createNewUpdatedDisplayTransactions := fun currentTipHeight reqConfirmations viewKey acc current =>
    match DisplayedTransactionProcessor.Checked.createNewUpdatedDisplayTransactions ext std
      ⟨currentTipHeight, reqConfirmations, viewKey⟩ acc current with
    | .ok r => .ok r
    | .error e => .error e.toString

theorem Externals.scanEnv_eq_ok {ext : Externals} {std : StdOrder}
    {currentTipHeight reqConfirmations : Nat} {viewKey : PrivateKey} {acc : BlockEventAccumulator}
    {current : List DisplayedTransaction}
    {r : List DisplayedTransaction × List DisplayedTransaction}
    (h : (ext.scanEnv std).createNewUpdatedDisplayTransactions currentTipHeight reqConfirmations
      viewKey acc current = .ok r) :
    DisplayedTransactionProcessor.Checked.createNewUpdatedDisplayTransactions ext std
      ⟨currentTipHeight, reqConfirmations, viewKey⟩ acc current = .ok r := by
  simp only [Externals.scanEnv] at h
  split at h
  · next r' hr =>
      cases h
      exact hr
  · cases h

end MinotariWallet
