import MinotariWallet.Db.Outputs

set_option autoImplicit false

/-! # `db/inputs.rs` -/

namespace MinotariWallet

open Sql Exec

structure InputToDelete where
  inputId : Id
  outputId : Id
  outputValue : Int
deriving DecidableEq

/-- Undeleted inputs of the account mined at or above `height`, as SQL compares the columns. -/
def InputRow.activeFrom (accountId : AccountId) (height : Nat) (i : InputRow) : Bool :=
  i.accountId == accountId && decide (asI64 height ≤ i.minedInBlockHeight) && i.active

theorem InputRow.activeFrom_eq_true {accountId : AccountId} {height : Nat} {i : InputRow} :
    i.activeFrom accountId height = true ↔
      (i.accountId = accountId ∧ asI64 height ≤ i.minedInBlockHeight) ∧ i.active = true := by
  simp [InputRow.activeFrom]

/-- The row that `insert_input` writes. -/
def newInputRow (accountId : AccountId) (outputId : Id) (minedInBlockHeight : Nat)
    (minedInBlockHash : FixedHash) (minedTimestamp : Timestamp) (id : Id) : InputRow where
  id := id
  accountId := accountId
  outputId := outputId
  minedInBlockHash := minedInBlockHash
  minedInBlockHeight := asI64 minedInBlockHeight
  minedTimestamp := minedTimestamp

namespace Db

/-- The `INSERT OR IGNORE` of `insert_input`; the partial unique index is on undeleted rows. -/
def insertOrIgnoreInput (db : Db) (accountId : AccountId) (outputId : Id)
    (minedInBlockHeight : Nat) (minedInBlockHash : FixedHash) (minedTimestamp : Timestamp) : Db :=
  if db.inputs.exists? (fun i => i.active && i.outputId == outputId) then db
  else { db with
    inputs := db.inputs.insert (newInputRow accountId outputId minedInBlockHeight minedInBlockHash
      minedTimestamp) }

/-- The `SELECT` of `insert_input`. -/
def getActiveInputId (db : Db) (outputId : Id) : Except WalletDbError Id :=
  match db.inputs.find? (fun i => i.outputId == outputId && i.active) with
  | some i => .ok i.id
  | none => .error (.rusqlite "Query returned no rows")

/-- The rows of `inputs JOIN outputs` that `soft_delete_inputs_from_height` goes through. -/
def getInputsToDelete (db : Db) (accountId : AccountId) (height : Nat) : List InputToDelete :=
  (db.inputs.select (InputRow.activeFrom accountId height)).filterMap (fun i =>
    (db.outputs.get? i.outputId).map (fun o => ⟨i.id, o.id, o.value⟩))

/-- The `UPDATE` at the end of `soft_delete_inputs_from_height`. -/
def setInputsDeleted (db : Db) (accountId : AccountId) (height : Nat) (now : Timestamp) : Db :=
  { db with
    inputs := db.inputs.updateWhere (InputRow.activeFrom accountId height)
      (fun i => { i with deletedAt := some now, deletedInBlockHeight := some (asI64 height) }) }

end Db

theorem mem_setInputsDeleted_active {db : Db} {accountId : AccountId} {height : Nat}
    {now : Timestamp} {i : InputRow} (hactive : i.active = true) :
    i ∈ (db.setInputsDeleted accountId height now).inputs.rows ↔
      i ∈ db.inputs.rows ∧
        ¬(i.accountId = accountId ∧ asI64 height ≤ i.minedInBlockHeight) := by
  have hmem := AutoTable.mem_updateWhere_unmarked (t := db.inputs)
    (p := InputRow.activeFrom accountId height) (q := fun i => i.active = true)
    (f := fun i => { i with
      deletedAt := some now
      deletedInBlockHeight := some (asI64 height) }) (fun i => by simp [InputRow.active]) hactive
    (fun _ => rfl)
  refine hmem.trans (and_congr_right (fun _ => ?_))
  rw [← Bool.not_eq_true, InputRow.activeFrom_eq_true]
  simp [hactive]

/-- `insert_input` touches only its own table. -/
@[simp] theorem outputs_insertOrIgnoreInput (db : Db) (accountId : AccountId) (outputId : Id)
    (height : Nat) (blockHash : FixedHash) (timestamp : Timestamp) :
    (db.insertOrIgnoreInput accountId outputId height blockHash timestamp).outputs = db.outputs := by
  unfold Db.insertOrIgnoreInput
  split <;> rfl

/-- `INSERT OR IGNORE` followed by the lookup: the row found is new, or it was there before and
    nothing was inserted. -/
theorem getActiveInputId_insertOrIgnoreInput {db : Db} {accountId : AccountId} {outputId : Id}
    {height : Nat} {blockHash : FixedHash} {timestamp : Timestamp} {inputId : Id}
    (h : (db.insertOrIgnoreInput accountId outputId height blockHash timestamp).getActiveInputId
      outputId = .ok inputId) :
    ((∃ i ∈ db.inputs.rows, i.active = true ∧ i.outputId = outputId) ∧
        db.insertOrIgnoreInput accountId outputId height blockHash timestamp = db) ∨
      ((∀ i ∈ db.inputs.rows, i.active = true → i.outputId ≠ outputId) ∧
        inputId = db.inputs.seq + 1 ∧
        db.insertOrIgnoreInput accountId outputId height blockHash timestamp = { db with
          inputs := db.inputs.insert
            (newInputRow accountId outputId height blockHash timestamp) }) := by
  unfold Db.insertOrIgnoreInput at h ⊢
  split at h
  · next hex =>
      obtain ⟨i, hi, hp⟩ := Table.exists?_eq_true.mp hex
      simp only [Bool.and_eq_true, beq_iff_eq] at hp
      exact Or.inl ⟨⟨i, hi, hp⟩, by rw [if_pos hex]⟩
  · next hex =>
      have hnone : ∀ i ∈ db.inputs.rows, i.active = true → i.outputId ≠ outputId := by
        intro i hi hactive heq
        exact hex (Table.exists?_eq_true.mpr ⟨i, hi, by simp [hactive, heq]⟩)
      refine Or.inr ⟨hnone, ?_, by rw [if_neg hex]⟩
      unfold Db.getActiveInputId at h
      split at h
      · next i hfind =>
          obtain ⟨hmem, hp⟩ := Table.find?_some hfind
          have hi : i ∈ (db.inputs.insert
            (newInputRow accountId outputId height blockHash timestamp)).rows := hmem
          simp only [Bool.and_eq_true, beq_iff_eq] at hp
          rcases (AutoTable.mem_insert (fun _ => rfl)).mp hi with hold | hnew
          · exact absurd hp.1 (hnone i hold hp.2)
          · simp only [Except.ok.injEq] at h
            rw [← h, hnew]
            rfl
      · cases h

def insertInput (accountId : AccountId) (outputId : Id) (minedInBlockHeight : Nat)
    (minedInBlockHash : FixedHash) (minedTimestamp : Nat) : DbM Id := do
  match fromTimestamp (asI64 minedTimestamp) with
  | none => throw (.decoding s!"Invalid mined timestamp: {minedTimestamp}")
  | some timestamp =>
    update (·.insertOrIgnoreInput accountId outputId minedInBlockHeight minedInBlockHash timestamp)
    tryQuery (·.getActiveInputId outputId)

def inputReversal (accountId : AccountId) (height : Nat) (now : Timestamp)
    (row : InputToDelete) : Option Id → BalanceChange :=
  BalanceChange.reversal accountId (some row.outputId) (some row.inputId)
    s!"Reversal: Input spent as input (reorg at height {height})"
    (asU64 row.outputValue) 0 now height

/-- The body of the loop in `soft_delete_inputs_from_height`. -/
def reverseInputBalanceChange (accountId : AccountId) (height : Nat) (now : Timestamp)
    (row : InputToDelete) : DbM Unit :=
  reverseBalanceChange (·.getBalanceChangeIdByInput row.inputId)
    (inputReversal accountId height now row)

/-- `soft_delete_inputs_from_height`. It reverses the debits and deletes the inputs; the status of
    the outputs they spent stays as it is. -/
def softDeleteInputsFromHeight (accountId : AccountId) (height : Nat) (now : Timestamp) :
    DbM Unit := do
  let inputsWithOutputValues ← query (·.getInputsToDelete accountId height)
  inputsWithOutputValues.forM (reverseInputBalanceChange accountId height now)
  update (·.setInputsDeleted accountId height now)

end MinotariWallet
