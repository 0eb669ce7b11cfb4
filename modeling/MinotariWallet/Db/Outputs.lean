import MinotariWallet.Db.BalanceChanges

set_option autoImplicit false

/-! # `db/outputs.rs` -/

namespace MinotariWallet

open Sql Exec

/-- A stored output as the transaction code sees it. -/
structure DbWalletOutput where
  id : Id
  txId : TxId
  output : WalletOutput
deriving DecidableEq

def OutputRow.toDbWalletOutput (o : OutputRow) : DbWalletOutput := ⟨o.id, o.txId, o.walletOutput⟩

structure UnconfirmedOutputRow where
  outputHash : FixedHash
  minedInBlockHeight : Int
  memoParsed : Option Memo
  memoHex : Option Memo
  txId : TxId
  isBurn : Bool
deriving DecidableEq

structure OutputToDelete where
  id : Id
  value : Int
deriving DecidableEq

structure ReorgOutputInfo where
  outputHash : FixedHash
  minedInBlockHeight : Int
  lockedByRequestId : Option RequestId
deriving DecidableEq

/-- Undeleted outputs of the account mined at or above `height`, as SQL compares the columns. -/
def OutputRow.activeFrom (accountId : AccountId) (height : Nat) (o : OutputRow) : Bool :=
  o.accountId == accountId && decide (asI64 height ≤ o.minedInBlockHeight) && o.active

theorem OutputRow.activeFrom_eq_true {accountId : AccountId} {height : Nat} {o : OutputRow} :
    o.activeFrom accountId height = true ↔
      (o.accountId = accountId ∧ asI64 height ≤ o.minedInBlockHeight) ∧ o.active = true := by
  simp [OutputRow.activeFrom]

/-- The row that `insert_output` writes; the other columns have their defaults. -/
def newOutputRow (ext : Externals) (accountId : AccountId) (accountViewKey : PrivateKey)
    (outputHash : FixedHash) (output : WalletOutput) (blockHeight : Nat) (blockHash : FixedHash)
    (minedTimestamp : Timestamp) (memoParsed memoHex : Option Memo)
    (paymentReference : PaymentReference) (isBurn : Bool) (id : Id) : OutputRow where
  id := id
  accountId := accountId
  txId := ext.newDeterministic accountViewKey output.outputHash
  outputHash := outputHash
  minedInBlockHash := blockHash
  minedInBlockHeight := asI64 blockHeight
  value := asI64 output.value
  walletOutput := output
  minedTimestamp := minedTimestamp
  memoParsed := memoParsed
  memoHex := memoHex
  paymentReference := some paymentReference
  isBurn := isBurn

namespace Db

/-- `insert_output`. The two partial unique indexes are on undeleted rows; the one that was created
    last is checked first. -/
def insertOutput (ext : Externals) (accountId : AccountId) (accountViewKey : PrivateKey)
    (outputHash : FixedHash) (output : WalletOutput) (blockHeight : Nat) (blockHash : FixedHash)
    (minedTimestamp : Nat) (memoParsed memoHex : Option Memo)
    (paymentReference : PaymentReference) (isBurn : Bool) (db : Db) :
    Except WalletDbError (Id × Db) :=
  match fromTimestamp (asI64 minedTimestamp) with
  | none => .error (.decoding s!"Invalid mined timestamp: {minedTimestamp}")
  | some timestamp =>
    if db.outputs.exists? (fun o => o.active
        && o.txId == ext.newDeterministic accountViewKey output.outputHash) then
      .error (.rusqlite "UNIQUE constraint failed: outputs.tx_id")
    else if db.outputs.exists? (fun o => o.active && o.outputHash == outputHash) then
      .error (.rusqlite "UNIQUE constraint failed: outputs.output_hash")
    else
      .ok (db.outputs.seq + 1, { db with
        outputs := db.outputs.insert (newOutputRow ext accountId accountViewKey outputHash output
          blockHeight blockHash timestamp memoParsed memoHex paymentReference isBurn) })

def getOutputInfoByHashForAccount (db : Db) (accountId : AccountId) (outputHash : FixedHash) :
    Option DbWalletOutput :=
  (db.outputs.find? (fun o => o.accountId == accountId && o.outputHash == outputHash && o.active)).map
    OutputRow.toDbWalletOutput

def getUnconfirmedOutputs (db : Db) (accountId : AccountId)
    (currentHeight confirmationBlocks : Nat) : List UnconfirmedOutputRow :=
  let minHeight := asI64 (currentHeight - confirmationBlocks)
  (db.outputs.select (fun o => o.accountId == accountId
    && decide (o.minedInBlockHeight ≤ minHeight) && o.confirmedHeight.isNone && o.active)).map
    (fun o => ⟨o.outputHash, o.minedInBlockHeight, o.memoParsed, o.memoHex, o.txId, o.isBurn⟩)

/-- `mark_output_confirmed`: every row with the hash, tombstones included. -/
def markOutputConfirmed (db : Db) (outputHash : FixedHash) (confirmedHeight : Nat)
    (confirmedHash : FixedHash) : Db :=
  { db with
    outputs := db.outputs.updateWhere (fun o => o.outputHash == outputHash)
      (fun o => { o with
        confirmedHeight := some (asI64 confirmedHeight)
        confirmedHash := some confirmedHash }) }

/-- The rows that `soft_delete_outputs_from_height` goes through. -/
def getOutputsToDelete (db : Db) (accountId : AccountId) (height : Nat) : List OutputToDelete :=
  (db.outputs.select (OutputRow.activeFrom accountId height)).map (fun o => ⟨o.id, o.value⟩)

/-- The `UPDATE` at the end of `soft_delete_outputs_from_height`. -/
def setOutputsDeleted (db : Db) (accountId : AccountId) (height : Nat) (now : Timestamp) : Db :=
  { db with
    outputs := db.outputs.updateWhere (OutputRow.activeFrom accountId height)
      (fun o => { o with
        deletedAt := some now
        deletedInBlockHeight := some (asI64 height)
        paymentReference := none }) }

def updateOutputStatus (db : Db) (outputId : Id) (status : OutputStatus) : Db :=
  { db with
    outputs := db.outputs.updateWhere (fun o => o.id == outputId) (fun o => { o with status }) }

/-- `lock_output`: a conditional `UPDATE`; the number of rows it changes is not looked at. -/
def lockOutput (db : Db) (outputId : Id) (lockedByRequestId : RequestId) (lockedAt : Timestamp) :
    Db :=
  { db with
    outputs := db.outputs.updateWhere (fun o => o.id == outputId && o.status == .unspent)
      (fun o => { o with
        status := .locked
        lockedByRequestId := some lockedByRequestId
        lockedAt := some lockedAt }) }

def fetchUnspentOutputs (db : Db) (accountId : AccountId) (minHeight : Nat) :
    List DbWalletOutput :=
  (orderByDesc (·.value) (db.outputs.select (fun o => o.accountId == accountId
    && o.status == .unspent && decide (o.minedInBlockHeight ≤ asI64 minHeight) && o.active
    && !o.isBurn))).map OutputRow.toDbWalletOutput

def unlockOutputsForRequest (db : Db) (lockedByRequestId : RequestId) : Db :=
  { db with
    outputs := db.outputs.updateWhere
      (fun o => o.lockedByRequestId == some lockedByRequestId && o.status == .locked)
      (fun o => { o with status := .unspent, lockedAt := none, lockedByRequestId := none }) }

/-- `fetch_outputs_by_lock_request_id`: whatever its status, and tombstones included. -/
def fetchOutputsByLockRequestId (db : Db) (lockedByRequestId : RequestId) : List DbWalletOutput :=
  (db.outputs.select (fun o => o.lockedByRequestId == some lockedByRequestId)).map
    OutputRow.toDbWalletOutput

def getActiveOutputsFromHeight (db : Db) (accountId : AccountId) (height : Nat) :
    List ReorgOutputInfo :=
  (db.outputs.select (OutputRow.activeFrom accountId height)).map
    (fun o => ⟨o.outputHash, o.minedInBlockHeight, o.lockedByRequestId⟩)

/-- `get_output_totals_for_account`: the locked, the unconfirmed, and the locked and unconfirmed
    value. -/
def getOutputTotalsForAccount (db : Db) (accountId : AccountId) :
    Except WalletDbError (MicroMinotari × MicroMinotari × MicroMinotari) := do
  let rows := db.outputs.select (fun o => o.accountId == accountId && o.active && !o.isBurn)
  let lockedVal ← sqlSum (rows.map (fun o => if o.status = .locked then o.value else 0))
  let unconfirmedVal ← sqlSum (rows.map (fun o => if o.confirmedHeight.isNone then o.value else 0))
  let lockedAndUnconfirmedVal ← sqlSum (rows.map (fun o =>
    if o.status = .locked ∧ o.confirmedHeight.isNone then o.value else 0))
  return (asU64 (lockedVal.getD 0), asU64 (unconfirmedVal.getD 0),
    asU64 (lockedAndUnconfirmedVal.getD 0))

def getTotalUnspentBalance (db : Db) (accountId : AccountId) : Except WalletDbError Nat := do
  let rows := db.outputs.select (fun o => o.accountId == accountId && o.status == .unspent
    && o.active && !o.isBurn)
  let total ← sqlSum (rows.map (·.value))
  if total.getD 0 < 0 then
    throw (.rusqlite "integral value out of range")
  return (total.getD 0).toNat

end Db

/-! ## What the statements do -/

/-- A successful `insert_output` adds one row, whose hash no undeleted row had. -/
theorem insertOutput_ok {ext : Externals} {accountId : AccountId} {key : PrivateKey}
    {outputHash : FixedHash} {output : WalletOutput} {blockHeight : Nat} {blockHash : FixedHash}
    {minedTimestamp : Nat} {memoParsed memoHex : Option Memo} {payref : PaymentReference}
    {isBurn : Bool} {db db' : Db} {id : Id}
    (h : db.insertOutput ext accountId key outputHash output blockHeight blockHash minedTimestamp
      memoParsed memoHex payref isBurn = .ok (id, db')) :
    ∃ timestamp, fromTimestamp (asI64 minedTimestamp) = some timestamp ∧
      (∀ o ∈ db.outputs.rows, o.active = true → o.outputHash ≠ outputHash) ∧
      id = db.outputs.seq + 1 ∧
      db' = { db with
        outputs := db.outputs.insert (newOutputRow ext accountId key outputHash output blockHeight
          blockHash timestamp memoParsed memoHex payref isBurn) } := by
  unfold Db.insertOutput at h
  split at h
  · cases h
  · next timestamp hts =>
      split at h
      · cases h
      · split at h
        · cases h
        · next hhash =>
            simp only [Except.ok.injEq, Prod.mk.injEq] at h
            refine ⟨timestamp, hts, fun o ho hactive heq => ?_, h.1.symm, h.2.symm⟩
            exact hhash (Table.exists?_eq_true.mpr ⟨o, ho, by simp [hactive, heq]⟩)

theorem getOutputInfoByHashForAccount_some {db : Db} {accountId : AccountId} {hash : FixedHash}
    {info : DbWalletOutput} (h : db.getOutputInfoByHashForAccount accountId hash = some info) :
    ∃ o ∈ db.outputs.rows, o.active = true ∧ o.accountId = accountId ∧ o.outputHash = hash ∧
      o.toDbWalletOutput = info := by
  obtain ⟨o, hfind, rfl⟩ := Option.map_eq_some_iff.mp h
  obtain ⟨ho, hp⟩ := Table.find?_some hfind
  simp only [Bool.and_eq_true, beq_iff_eq] at hp
  exact ⟨o, ho, hp.2, hp.1.1, hp.1.2, rfl⟩

/-- The undeleted outputs that a rollback leaves alone. -/
def OutputRow.survives (accountId : AccountId) (height : Nat) (o : OutputRow) : Prop :=
  o.active = true ∧ ¬(o.accountId = accountId ∧ asI64 height ≤ o.minedInBlockHeight)

theorem mem_setOutputsDeleted_active {db : Db} {accountId : AccountId} {height : Nat}
    {now : Timestamp} {o : OutputRow} (hactive : o.active = true) :
    o ∈ (db.setOutputsDeleted accountId height now).outputs.rows ↔
      o ∈ db.outputs.rows ∧ o.survives accountId height := by
  have hmem := AutoTable.mem_updateWhere_unmarked (t := db.outputs)
    (p := OutputRow.activeFrom accountId height) (q := fun o => o.active = true)
    (f := fun o => { o with
      deletedAt := some now
      deletedInBlockHeight := some (asI64 height)
      paymentReference := none }) (fun o => by simp [OutputRow.active]) hactive (fun _ => rfl)
  refine hmem.trans (and_congr_right (fun _ => ?_))
  rw [← Bool.not_eq_true, OutputRow.activeFrom_eq_true]
  simp [OutputRow.survives, hactive]

def outputReversal (accountId : AccountId) (height : Nat) (now : Timestamp)
    (outputRow : OutputToDelete) : Option Id → BalanceChange :=
  BalanceChange.reversal accountId (some outputRow.id) none
    s!"Reversal: Output found in blockchain scan (reorg at height {height})"
    0 (asU64 outputRow.value) now height

/-- The body of the loop in `soft_delete_outputs_from_height`. -/
def reverseOutputBalanceChange (accountId : AccountId) (height : Nat) (now : Timestamp)
    (outputRow : OutputToDelete) : DbM Unit :=
  reverseBalanceChange (·.getBalanceChangeIdByOutput outputRow.id)
    (outputReversal accountId height now outputRow)

def softDeleteOutputsFromHeight (accountId : AccountId) (height : Nat) (now : Timestamp) :
    DbM Unit := do
  let outputsToDelete ← query (·.getOutputsToDelete accountId height)
  outputsToDelete.forM (reverseOutputBalanceChange accountId height now)
  update (·.setOutputsDeleted accountId height now)

end MinotariWallet
