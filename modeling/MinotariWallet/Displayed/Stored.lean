import MinotariWallet.Displayed.Checked

set_option autoImplicit false

/-! # Displayed transactions from the stored changes

`process_all_stored_with_conn` builds the accumulator of every height again from the active balance
changes and the rows that they refer to. It tells debits from credits by their value and takes the
id of the input row for that of the output it spends, so it rebuilds what `process_block` had
accumulated exactly when the rows can be read, no spend has the value 0 and the two ids are always
the same. -/

namespace MinotariWallet

open Sql Exec

/-! ## Reading -/

/-- What `serde_rusqlite`, which is not part of the repository, makes of two kinds of columns: an
    integer for a newtype such as `MicroMinotari`, and the text of a `NaiveDateTime` with the blank
    that SQLite has in it where its reader asks for a `T`. -/
structure ColumnReads where
  newtypes : Bool
  timestamps : Bool
deriving DecidableEq, Repr

/-- A column that is read as unsigned. -/
def readUnsigned (column : Int) : Except WalletDbError Nat :=
  if column < 0 then .error (.serdeRusqlite "invalid value: integer, expected u64")
  else .ok column.toNat

/-- A column that is read as `MicroMinotari`. -/
def readMicroMinotari (reads : ColumnReads) (column : Int) : Except WalletDbError MicroMinotari :=
  if reads.newtypes then readUnsigned column
  else .error (.serdeRusqlite "invalid type: integer, expected tuple struct MicroMinotari")

def readMicroMinotariOrNull (reads : ColumnReads) :
    Option Int → Except WalletDbError (Option MicroMinotari)
  | none => .ok none
  | some column => (readMicroMinotari reads column).map some

/-- How a row of `balance_changes` is read. -/
def BalanceChangeRow.toBalanceChange (reads : ColumnReads) (b : BalanceChangeRow) :
    Except WalletDbError BalanceChange := do
  let balanceCredit ← readMicroMinotari reads b.balanceCredit
  let balanceDebit ← readMicroMinotari reads b.balanceDebit
  let effectiveHeight ← readUnsigned b.effectiveHeight
  let claimedFee ← readMicroMinotariOrNull reads b.claimedFee
  let claimedAmount ← readMicroMinotariOrNull reads b.claimedAmount
  return {
    accountId := b.accountId
    causedByOutputId := b.causedByOutputId
    causedByInputId := b.causedByInputId
    description := b.description
    balanceCredit, balanceDebit
    effectiveDate := b.effectiveDate
    effectiveHeight
    claimedRecipientAddress := b.claimedRecipientAddress
    claimedSenderAddress := b.claimedSenderAddress
    memoParsed := b.memoParsed
    memoHex := b.memoHex
    claimedFee, claimedAmount
    isReversal := b.isReversal
    reversalOfBalanceChangeId := b.reversalOfBalanceChangeId
    isReversed := b.isReversed }

def BalanceChange.isDebit (change : BalanceChange) : Bool := 0 < change.balanceDebit

/-- A lookup by id that reads the row with its timestamps; these queries, unlike that of the balance
    changes, do not replace the blank in them. -/
def readRow {ρ : Type} (reads : ColumnReads) : Option ρ → Except ProcessorError (Option ρ)
  | none => .ok none
  | some row =>
    if reads.timestamps then .ok (some row)
    else .error (.dbError (.serdeRusqlite "input contains invalid characters"))

/-- `ok_or(ProcessorError::MissingError(message))`. -/
def okOr {α : Type} (message : String) : Option α → Except ProcessorError α
  | none => .error (.missingError message)
  | some a => .ok a

namespace Db

/-- `get_input_by_id`. -/
def getInputById (reads : ColumnReads) (db : Db) (inputId : Id) :
    Except ProcessorError (Option InputRow) :=
  readRow reads (db.inputs.get? inputId)

/-- `get_output_by_id`. -/
def getOutputById (reads : ColumnReads) (db : Db) (outputId : Id) :
    Except ProcessorError (Option OutputRow) :=
  readRow reads (db.outputs.get? outputId)

/-- What `get_all_active_balance_changes_by_account_id` returns. -/
def storedBalanceChanges (reads : ColumnReads) (db : Db) (accountId : AccountId) :
    Except ProcessorError (List BalanceChange) :=
  ((db.getAllActiveBalanceChangesByAccountId accountId).mapM
    (BalanceChangeRow.toBalanceChange reads)).mapError .dbError

/-- The body of the loop over the changes of a height. -/
def replayChange (reads : ColumnReads) (db : Db) (acc : BlockEventAccumulator)
    (change : BalanceChange) : Except ProcessorError BlockEventAccumulator := do
  if change.isDebit then
    let inputId ← okOr "Debit balance change has no associated input" change.causedByInputId
    let input ← okOr "Debit balance change has no associated input"
      (← db.getInputById reads inputId)
    let output ← okOr (let id := input.outputId; s!"Ouput does not exist: {id}")
      (← db.getOutputById reads input.outputId)
    return acc.addDebitChange change {
      outputId := input.id
      minedInBlock := input.minedInBlockHash
      minedInBlockHeight := asU64 input.minedInBlockHeight
      output := output.walletOutput }
  else
    let outputId ← okOr "Credit balance change has no associated input" change.causedByOutputId
    let output ← okOr "Credit balance change has no associated input"
      (← db.getOutputById reads outputId)
    return acc.addCreditChange change {
      height := asU64 output.minedInBlockHeight
      minedInBlockHash := output.minedInBlockHash
      output := output.walletOutput }

/-- The accumulator for the changes of a height; it has no block hash. -/
def rebuildAccumulator (reads : ColumnReads) (db : Db) (accountId : AccountId) (height : Nat)
    (changes : List BalanceChange) : Except ProcessorError BlockEventAccumulator :=
  changes.foldlM (db.replayChange reads) { accountId, height, blockHash := 0 }

end Db

/-- The changes of a list at a height. -/
def changesAt (height : Nat) (changes : List BalanceChange) : List BalanceChange :=
  changes.filter (·.effectiveHeight == height)

/-- `mapped_changes`: the heights, each with its changes in order. -/
def mappedChanges (changes : List BalanceChange) : List (Nat × List BalanceChange) :=
  (changes.map (·.effectiveHeight)).dedup.map (fun height => (height, changesAt height changes))

/-- `create_new_updated_display_transactions_for_height`. -/
def DisplayedTransactionProcessor.createNewUpdatedDisplayTransactionsForHeight (ext : Externals)
    (std : StdOrder) (proc : DisplayedTransactionProcessor) (accumulator : BlockEventAccumulator)
    (db : Db) : Except ProcessorError (List DisplayedTransaction ×
      List DisplayedTransaction) :=
  let current := db.getDisplayedTransactionsFromHeight accumulator.accountId accumulator.height
  let pendingTxs := db.getDisplayedTransactionsByStatus accumulator.accountId .pending
  let retained := pendingTxs.filter (fun tx => !(current.map (·.id)).contains tx.id)
  Checked.createNewUpdatedDisplayTransactions ext std proc accumulator (current ++ retained)

/-- The end of the loop over the heights: the accumulator is handed on, and what is made of it is
    added to the updated and the new transactions. -/
def DisplayedTransactionProcessor.handOn (ext : Externals) (std : StdOrder)
    (proc : DisplayedTransactionProcessor) (db : Db)
    (transactions : List DisplayedTransaction × List DisplayedTransaction)
    (acc : BlockEventAccumulator) :
    Except ProcessorError (List DisplayedTransaction × List DisplayedTransaction) := do
  let (updated, new) ← proc.createNewUpdatedDisplayTransactionsForHeight ext std acc db
  return (transactions.1 ++ updated, transactions.2 ++ new)

/-- `process_all_stored_with_conn`. -/
def DisplayedTransactionProcessor.processAllStoredWithConn (ext : Externals) (std : StdOrder)
    (proc : DisplayedTransactionProcessor) (reads : ColumnReads) (accountId : AccountId)
    (db : Db) :
    Except ProcessorError (List DisplayedTransaction × List DisplayedTransaction) := do
  let balanceChanges ← db.storedBalanceChanges reads accountId
  if balanceChanges.isEmpty then return ([], [])
  (std.intoValues (mappedChanges balanceChanges)).foldlM (fun transactions mapped => do
    let acc ← db.rebuildAccumulator reads accountId mapped.1 mapped.2
    proc.handOn ext std db transactions acc) ([], [])

/-- The accumulator that it builds for a height. -/
def Db.rebuiltAt (reads : ColumnReads) (db : Db) (accountId : AccountId) (height : Nat) :
    Except ProcessorError BlockEventAccumulator := do
  let balanceChanges ← db.storedBalanceChanges reads accountId
  db.rebuildAccumulator reads accountId height (changesAt height balanceChanges)

/-! ## What is read -/

/-- The unsigned columns of the row are not negative. -/
def BalanceChangeRow.Fits (b : BalanceChangeRow) : Prop :=
  0 ≤ b.balanceCredit ∧ 0 ≤ b.balanceDebit ∧ 0 ≤ b.effectiveHeight ∧
    (∀ fee ∈ b.claimedFee, 0 ≤ fee) ∧ ∀ amount ∈ b.claimedAmount, 0 ≤ amount

instance (b : BalanceChangeRow) : Decidable b.Fits :=
  inferInstanceAs (Decidable (0 ≤ b.balanceCredit ∧ 0 ≤ b.balanceDebit ∧ 0 ≤ b.effectiveHeight ∧
    (∀ fee ∈ b.claimedFee, 0 ≤ fee) ∧ ∀ amount ∈ b.claimedAmount, 0 ≤ amount))

/-- The columns of the row can be read. -/
def BalanceChangeRow.Readable (reads : ColumnReads) (b : BalanceChangeRow) : Prop :=
  reads.newtypes = true ∧ b.Fits

instance (reads : ColumnReads) (b : BalanceChangeRow) : Decidable (b.Readable reads) :=
  inferInstanceAs (Decidable (reads.newtypes = true ∧ b.Fits))

/-- The active changes of an account can be read. -/
def Db.Readable (reads : ColumnReads) (db : Db) (accountId : AccountId) : Prop :=
  ∀ b ∈ db.balanceChanges.rows, b.accountId = accountId → b.active = true → b.Readable reads

/-- What is read from such a row. -/
def BalanceChangeRow.change (b : BalanceChangeRow) : BalanceChange where
  accountId := b.accountId
  causedByOutputId := b.causedByOutputId
  causedByInputId := b.causedByInputId
  description := b.description
  balanceCredit := b.balanceCredit.toNat
  balanceDebit := b.balanceDebit.toNat
  effectiveDate := b.effectiveDate
  effectiveHeight := b.effectiveHeight.toNat
  claimedRecipientAddress := b.claimedRecipientAddress
  claimedSenderAddress := b.claimedSenderAddress
  memoParsed := b.memoParsed
  memoHex := b.memoHex
  claimedFee := b.claimedFee.map Int.toNat
  claimedAmount := b.claimedAmount.map Int.toNat
  isReversal := b.isReversal
  reversalOfBalanceChangeId := b.reversalOfBalanceChangeId
  isReversed := b.isReversed

theorem readUnsigned_ok {column : Int} {x : Nat} :
    readUnsigned column = .ok x ↔ 0 ≤ column ∧ x = column.toNat := by
  unfold readUnsigned
  split
  · next hneg => simp [hneg]
  · next hneg => simp [not_lt.mp hneg, eq_comm]

theorem readMicroMinotari_ok {reads : ColumnReads} {column : Int} {x : MicroMinotari} :
    readMicroMinotari reads column = .ok x ↔
      reads.newtypes = true ∧ 0 ≤ column ∧ x = column.toNat := by
  unfold readMicroMinotari
  cases reads.newtypes with
  | false => simp
  | true => simp [readUnsigned_ok]

/-- Where newtypes are read, so is an optional one. -/
theorem readMicroMinotariOrNull_ok {reads : ColumnReads} {column : Option Int}
    {x : Option MicroMinotari} (hread : reads.newtypes = true) :
    readMicroMinotariOrNull reads column = .ok x ↔
      (∀ c ∈ column, 0 ≤ c) ∧ x = column.map Int.toNat := by
  cases column with
  | none => simp [readMicroMinotariOrNull, eq_comm]
  | some c =>
      cases hc : readMicroMinotari reads c with
      | error e =>
          have hneg : ¬0 ≤ c := by
            intro hnonneg
            rw [readMicroMinotari_ok.mpr ⟨hread, hnonneg, rfl⟩] at hc
            cases hc
          simp [readMicroMinotariOrNull, hc, Except.map, hneg]
      | ok y =>
          obtain ⟨-, hnonneg, rfl⟩ := readMicroMinotari_ok.mp hc
          simp [readMicroMinotariOrNull, hc, Except.map, hnonneg, eq_comm]

/-- A row is read exactly when newtypes are and its unsigned columns are not negative. -/
theorem toBalanceChange_ok {reads : ColumnReads} (b : BalanceChangeRow) (change : BalanceChange) :
    b.toBalanceChange reads = .ok change ↔ b.Readable reads ∧ change = b.change := by
  unfold BalanceChangeRow.toBalanceChange
  simp only [except_bind_ok, readUnsigned_ok, readMicroMinotari_ok]
  constructor
  · rintro ⟨_, ⟨hread, hcredit, rfl⟩, _, ⟨-, hdebit, rfl⟩, _, ⟨hheight, rfl⟩, fee, hfee, amount,
      hamount, hchange⟩
    obtain ⟨hfits, rfl⟩ := (readMicroMinotariOrNull_ok hread).mp hfee
    obtain ⟨hfits', rfl⟩ := (readMicroMinotariOrNull_ok hread).mp hamount
    cases hchange
    exact ⟨⟨hread, hcredit, hdebit, hheight, hfits, hfits'⟩, rfl⟩
  · rintro ⟨⟨hread, hcredit, hdebit, hheight, hfee, hamount⟩, rfl⟩
    exact ⟨_, ⟨hread, hcredit, rfl⟩, _, ⟨hread, hdebit, rfl⟩, _, ⟨hheight, rfl⟩,
      _, (readMicroMinotariOrNull_ok hread).mpr ⟨hfee, rfl⟩,
      _, (readMicroMinotariOrNull_ok hread).mpr ⟨hamount, rfl⟩, rfl⟩

/-- The amounts and the height are 64-bit values. -/
def BalanceChange.Sized (change : BalanceChange) : Prop :=
  change.balanceCredit < 2 ^ 64 ∧ change.balanceDebit < 2 ^ 64 ∧ change.effectiveHeight < 2 ^ 64 ∧
    (∀ fee ∈ change.claimedFee, fee < 2 ^ 64) ∧ ∀ amount ∈ change.claimedAmount, amount < 2 ^ 64

theorem toNat_asI64 {x : Nat} (hx : x < 2 ^ 64) (hnonneg : 0 ≤ asI64 x) : (asI64 x).toNat = x := by
  unfold asI64 at hnonneg ⊢
  split at hnonneg <;> omega

/-- A row that can be read is read as the change it was written for. -/
theorem change_toRow {change : BalanceChange} {id : Id} (hsized : change.Sized)
    (hfits : (change.toRow id).Fits) : (change.toRow id).change = change := by
  obtain ⟨hcredit, hdebit, hheight, hfee, hamount⟩ := hsized
  obtain ⟨hcredit', hdebit', hheight', hfee', hamount'⟩ := hfits
  have hoption : ∀ {column : Option Nat}, (∀ x ∈ column, x < 2 ^ 64) →
      (∀ x ∈ column.map asI64, 0 ≤ x) → (column.map asI64).map Int.toNat = column := by
    intro column hlt hnonneg
    cases column with
    | none => rfl
    | some x => exact congrArg some (toNat_asI64 (hlt x rfl) (hnonneg _ rfl))
  have hfeeEq := hoption hfee hfee'
  have hamountEq := hoption hamount hamount'
  have hcreditEq := toNat_asI64 hcredit hcredit'
  have hdebitEq := toNat_asI64 hdebit hdebit'
  have hheightEq := toNat_asI64 hheight hheight'
  cases change
  simp only [BalanceChangeRow.change, BalanceChange.toRow, hcreditEq, hdebitEq, hheightEq, hfeeEq,
    hamountEq] at *

section Stored

variable {reads : ColumnReads} {db : Db} {accountId : AccountId} {height : Nat}

/-- The stored changes are read when all their rows can be. -/
theorem storedBalanceChanges_ok {changes : List BalanceChange} :
    db.storedBalanceChanges reads accountId = .ok changes ↔ db.Readable reads accountId ∧
      changes = (db.getAllActiveBalanceChangesByAccountId accountId).map (·.change) := by
  have hrows : (∀ b ∈ db.getAllActiveBalanceChangesByAccountId accountId, b.Readable reads) ↔
      db.Readable reads accountId := by
    unfold Db.getAllActiveBalanceChangesByAccountId Db.Readable
    simp only [(perm_orderBy _ _).mem_iff, Table.mem_select, Bool.and_eq_true, beq_iff_eq, and_imp]
  rw [← hrows, ← mapM_ok_iff_map toBalanceChange_ok]
  unfold Db.storedBalanceChanges
  cases (db.getAllActiveBalanceChangesByAccountId accountId).mapM
    (BalanceChangeRow.toBalanceChange reads) <;> simp [Except.mapError]

/-- The changes read at a height, in the order of their rows. -/
theorem changesAt_stored (hread : db.Readable reads accountId) :
    changesAt height ((db.getAllActiveBalanceChangesByAccountId accountId).map (·.change)) =
      ((db.balanceChanges.select (fun b => b.accountId == accountId && b.active)).filter
        (fun b => b.effectiveHeight == (height : Int))).map (·.change) := by
  have hstable := filter_orderBy (fun b : BalanceChangeRow => b.effectiveHeight) (height : Int)
    (db.balanceChanges.select (fun b => b.accountId == accountId && b.active))
  rw [← hstable, changesAt, List.filter_map]
  refine congrArg (List.map _) (List.filter_congr (fun b hb => ?_))
  obtain ⟨hrow, hp⟩ := Table.mem_select.mp ((perm_orderBy _ _).mem_iff.mp hb)
  simp only [Bool.and_eq_true, beq_iff_eq] at hp
  have hnonneg := (hread b hrow hp.1 hp.2).2.2.2.1
  show (b.effectiveHeight.toNat == height) = (b.effectiveHeight == (height : Int))
  rw [Bool.eq_iff_iff, beq_iff_eq, beq_iff_eq]
  omega

theorem rebuiltAt_ok {rebuilt : BlockEventAccumulator} :
    db.rebuiltAt reads accountId height = .ok rebuilt ↔ db.Readable reads accountId ∧
      db.rebuildAccumulator reads accountId height
        (((db.balanceChanges.select (fun b => b.accountId == accountId && b.active)).filter
          (fun b => b.effectiveHeight == (height : Int))).map (·.change)) = .ok rebuilt := by
  unfold Db.rebuiltAt
  simp only [except_bind_ok, storedBalanceChanges_ok]
  constructor
  · rintro ⟨_, ⟨hread, rfl⟩, hrebuilt⟩
    rw [changesAt_stored hread] at hrebuilt
    exact ⟨hread, hrebuilt⟩
  · rintro ⟨hread, hrebuilt⟩
    exact ⟨_, ⟨hread, rfl⟩, by rwa [changesAt_stored hread]⟩

/-- What the loop over `mapped_changes` rebuilds at each of its heights. -/
theorem rebuildAccumulator_mapped {balanceChanges changes : List BalanceChange}
    (hstored : db.storedBalanceChanges reads accountId = .ok balanceChanges)
    (hmapped : (height, changes) ∈ mappedChanges balanceChanges) :
    db.rebuildAccumulator reads accountId height changes =
      db.rebuiltAt reads accountId height := by
  obtain ⟨h, -, heq⟩ := List.mem_map.mp hmapped
  cases heq
  rw [Db.rebuiltAt, hstored]
  rfl

/-- `process_all_stored_with_conn` hands on the accumulators rebuilt at the heights of the active
    changes, in any order. -/
theorem processAllStoredWithConn_rebuilds (ext : Externals) (std : StdOrder)
    (proc : DisplayedTransactionProcessor) {balanceChanges : List BalanceChange}
    (hstored : db.storedBalanceChanges reads accountId = .ok balanceChanges) :
    ∃ heights : List Nat, heights.Perm (balanceChanges.map (·.effectiveHeight)).dedup ∧
      proc.processAllStoredWithConn ext std reads accountId db =
        heights.foldlM (fun transactions height =>
          db.rebuiltAt reads accountId height >>= proc.handOn ext std db transactions)
          ([], []) := by
  have hperm := std.values_perm (mappedChanges balanceChanges)
  refine ⟨(std.intoValues (mappedChanges balanceChanges)).map (·.1), ?_, ?_⟩
  · have hheights : (mappedChanges balanceChanges).map (·.1) =
        (balanceChanges.map (·.effectiveHeight)).dedup := by
      simp [mappedChanges, Function.comp_def]
    rw [← hheights]
    exact hperm.map _
  · unfold DisplayedTransactionProcessor.processAllStoredWithConn
    rw [hstored, List.foldlM_map]
    cases balanceChanges with
    | nil =>
        have hnone : std.intoValues (mappedChanges []) = [] := hperm.eq_nil
        rw [hnone]
        rfl
    | cons change rest =>
        refine foldlM_congr (fun hc hmem st => ?_) _
        rw [← rebuildAccumulator_mapped hstored (hperm.mem_iff.mp hmem)]

end Stored

/-! ## Rebuilding an accumulator -/

/-- The rows that a credit refers to. -/
structure StoredCredit (outputs : AutoTable OutputRow)
    (credit : BalanceChange × DetectedOutput) : Prop where
  debit : credit.1.balanceDebit = 0
  noInput : credit.1.causedByInputId = none
  sized : credit.2.height < 2 ^ 64
  output : ∃ o ∈ outputs.rows, credit.1.causedByOutputId = some o.id ∧
    o.minedInBlockHeight = asI64 credit.2.height ∧
    o.minedInBlockHash = credit.2.minedInBlockHash ∧ o.walletOutput = credit.2.output

/-- The rows that a debit refers to. -/
structure StoredDebit (outputs : AutoTable OutputRow) (inputs : AutoTable InputRow)
    (debit : BalanceChange × SpentInput) : Prop where
  noOutput : debit.1.causedByOutputId = none
  sized : debit.2.minedInBlockHeight < 2 ^ 64
  input : ∃ i ∈ inputs.rows, debit.1.causedByInputId = some i.id ∧
    i.outputId = debit.2.outputId ∧ i.minedInBlockHeight = asI64 debit.2.minedInBlockHeight ∧
    i.minedInBlockHash = debit.2.minedInBlock
  output : ∃ o ∈ outputs.rows, o.id = debit.2.outputId ∧ o.walletOutput = debit.2.output

/-- A debit as it is rebuilt: the id of the input row stands for that of the output. -/
def rebuiltDebit (debit : BalanceChange × SpentInput) : BalanceChange × SpentInput :=
  (debit.1, { debit.2 with outputId := debit.1.causedByInputId.getD debit.2.outputId })

section Rebuild

variable {reads : ColumnReads} {db : Db} {acc : BlockEventAccumulator}

theorem readRow_ok {ρ : Type} {row : ρ} {found : Option ρ} :
    readRow reads (some row) = .ok found ↔ reads.timestamps = true ∧ found = some row := by
  unfold readRow
  cases reads.timestamps <;> simp [eq_comm]

theorem okOr_ok {α : Type} {message : String} {found : Option α} {a : α} :
    okOr message found = .ok a ↔ found = some a := by
  cases found <;> simp [okOr, eq_comm]

/-- The row of a credit is found again. -/
theorem replayChange_credit {credit : BalanceChange × DetectedOutput}
    (h : StoredCredit db.outputs credit) {acc' : BlockEventAccumulator} :
    db.replayChange reads acc credit.1 = .ok acc' ↔
      reads.timestamps = true ∧ acc' = acc.addCreditChange credit.1 credit.2 := by
  obtain ⟨o, ho, hcaused, hheight, hhash, houtput⟩ := h.output
  have hget : db.outputs.get? o.id = some o := Table.get?_eq_some.mpr ⟨ho, rfl⟩
  have hdetected : (⟨asU64 o.minedInBlockHeight, o.minedInBlockHash, o.walletOutput⟩ :
      DetectedOutput) = credit.2 := by
    rw [hheight, asU64_asI64 h.sized, hhash, houtput]
  have hcredit : credit.1.isDebit = false := by simp [BalanceChange.isDebit, h.debit]
  unfold Db.replayChange
  rw [hcredit]
  simp only [Bool.false_eq_true, if_false, except_bind_ok, okOr_ok, hcaused, Option.some.injEq,
    exists_eq_left', Db.getOutputById, hget, readRow_ok]
  constructor
  · rintro ⟨_, ⟨hread, rfl⟩, _, hfound, hacc⟩
    cases hfound
    cases hacc
    exact ⟨hread, by rw [hdetected]⟩
  · rintro ⟨hread, rfl⟩
    exact ⟨_, ⟨hread, rfl⟩, o, rfl, by rw [hdetected]; rfl⟩

/-- The rows of a debit are found again when it is one by its value. -/
theorem replayChange_debit {debit : BalanceChange × SpentInput}
    (h : StoredDebit db.outputs db.inputs debit) {acc' : BlockEventAccumulator} :
    db.replayChange reads acc debit.1 = .ok acc' ↔
      (reads.timestamps = true ∧ debit.1.balanceDebit ≠ 0) ∧
        acc' = acc.addDebitChange (rebuiltDebit debit).1 (rebuiltDebit debit).2 := by
  obtain ⟨i, hi, hcaused, hoid, hheight, hhash⟩ := h.input
  obtain ⟨o, ho, hid, houtput⟩ := h.output
  have hgetInput : db.inputs.get? i.id = some i := Table.get?_eq_some.mpr ⟨hi, rfl⟩
  have hgetOutput : db.outputs.get? i.outputId = some o :=
    Table.get?_eq_some.mpr ⟨ho, hid.trans hoid.symm⟩
  have hspent : (⟨i.minedInBlockHash, asU64 i.minedInBlockHeight, i.id, o.walletOutput⟩ :
      SpentInput) = (rebuiltDebit debit).2 := by
    rw [hheight, asU64_asI64 h.sized, hhash, houtput, rebuiltDebit, hcaused]
    rfl
  unfold Db.replayChange
  by_cases hzero : debit.1.balanceDebit = 0
  · -- a spend of the value 0 is taken for a credit, which has no output
    have hcredit : debit.1.isDebit = false := by simp [BalanceChange.isDebit, hzero]
    rw [hcredit]
    simp [except_bind_ok, okOr_ok, h.noOutput, hzero]
  · have hdebit : debit.1.isDebit = true := by
      simpa [BalanceChange.isDebit] using Nat.pos_of_ne_zero hzero
    rw [hdebit]
    simp only [if_true, except_bind_ok, okOr_ok, hcaused, Option.some.injEq, exists_eq_left',
      Db.getInputById, Db.getOutputById, hgetInput, readRow_ok]
    constructor
    · rintro ⟨_, ⟨hread, rfl⟩, _, hfound, _, houtputs, _, hfoundOutput, hacc⟩
      cases hfound
      rw [hgetOutput, readRow_ok] at houtputs
      rw [houtputs.2] at hfoundOutput
      cases hfoundOutput
      cases hacc
      exact ⟨⟨hread, hzero⟩, by rw [hspent]; rfl⟩
    · rintro ⟨⟨hread, -⟩, rfl⟩
      refine ⟨_, ⟨hread, rfl⟩, i, rfl, some o, ?_, o, rfl, ?_⟩
      · rw [hgetOutput, readRow_ok]
        exact ⟨hread, rfl⟩
      · rw [hspent]
        rfl

theorem foldl_addCreditChange (credits : List (BalanceChange × DetectedOutput)) :
    credits.foldl (fun acc credit => acc.addCreditChange credit.1 credit.2) acc =
      { acc with creditBalanceChanges := acc.creditBalanceChanges ++ credits } := by
  induction credits generalizing acc with
  | nil => simp
  | cons credit credits ih =>
      rw [List.foldl_cons, ih]
      simp [BlockEventAccumulator.addCreditChange]

theorem foldl_rebuiltDebit (debits : List (BalanceChange × SpentInput)) :
    debits.foldl (fun acc debit => acc.addDebitChange (rebuiltDebit debit).1 (rebuiltDebit debit).2)
      acc = { acc with
        debitBalanceChanges := acc.debitBalanceChanges ++ debits.map rebuiltDebit } := by
  induction debits generalizing acc with
  | nil => simp
  | cons debit debits ih =>
      rw [List.foldl_cons, ih]
      simp [BlockEventAccumulator.addDebitChange]

/-- What is rebuilt from stored credits and debits. -/
theorem rebuildAccumulator_ok {accountId : AccountId} {height : Nat}
    {credits : List (BalanceChange × DetectedOutput)} {debits : List (BalanceChange × SpentInput)}
    (hcredits : ∀ credit ∈ credits, StoredCredit db.outputs credit)
    (hdebits : ∀ debit ∈ debits, StoredDebit db.outputs db.inputs debit)
    {rebuilt : BlockEventAccumulator} :
    db.rebuildAccumulator reads accountId height
        (credits.map (·.1) ++ debits.map (·.1)) = .ok rebuilt ↔
      (credits ≠ [] → reads.timestamps = true) ∧
        (∀ debit ∈ debits, reads.timestamps = true ∧ debit.1.balanceDebit ≠ 0) ∧
        rebuilt = {
          accountId, height
          blockHash := 0
          creditBalanceChanges := credits
          debitBalanceChanges := debits.map rebuiltDebit } := by
  have hcreditLoop : ∀ {acc acc' : BlockEventAccumulator},
      credits.foldlM (fun acc credit => db.replayChange reads acc credit.1) acc =
          .ok acc' ↔
        (∀ credit ∈ credits, reads.timestamps = true) ∧ acc' =
          { acc with creditBalanceChanges := acc.creditBalanceChanges ++ credits } := by
    intro acc acc'
    rw [← foldl_addCreditChange]
    exact foldlM_ok_iff_foldl (fun credit hc _ _ => replayChange_credit (hcredits credit hc))
  have hdebitLoop : ∀ {acc acc' : BlockEventAccumulator},
      debits.foldlM (fun acc debit => db.replayChange reads acc debit.1) acc = .ok acc' ↔
        (∀ debit ∈ debits, reads.timestamps = true ∧ debit.1.balanceDebit ≠ 0) ∧ acc' = { acc with
          debitBalanceChanges := acc.debitBalanceChanges ++ debits.map rebuiltDebit } := by
    intro acc acc'
    rw [← foldl_rebuiltDebit]
    exact foldlM_ok_iff_foldl (fun debit hd _ _ => replayChange_debit (hdebits debit hd))
  have hread : (∀ credit ∈ credits, reads.timestamps = true) ↔
      (credits ≠ [] → reads.timestamps = true) := by
    constructor
    · intro h hne
      obtain ⟨credit, hc⟩ := List.exists_mem_of_ne_nil _ hne
      exact h credit hc
    · intro h credit hc
      exact h (List.ne_nil_of_mem hc)
  unfold Db.rebuildAccumulator
  rw [List.foldlM_append, List.foldlM_map, except_bind_ok, ← hread]
  simp only [List.foldlM_map, hcreditLoop, hdebitLoop, List.nil_append]
  constructor
  · rintro ⟨_, ⟨hc, rfl⟩, hd, rfl⟩
    exact ⟨hc, hd, rfl⟩
  · rintro ⟨hc, hd, rfl⟩
    exact ⟨_, ⟨hc, rfl⟩, hd, rfl⟩

end Rebuild

end MinotariWallet
