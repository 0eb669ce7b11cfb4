import MinotariWallet.Model.Schema

set_option autoImplicit false

/-! # `db/scanned_tip_blocks.rs` -/

namespace MinotariWallet

open Sql

/-- A recorded block, its height read back as unsigned. -/
structure ScannedTipBlock where
  id : Id
  accountId : AccountId
  height : Nat
  hash : FixedHash
deriving DecidableEq

def ScannedTipBlockRow.toScannedTipBlock (b : ScannedTipBlockRow) :
    Except WalletDbError ScannedTipBlock :=
  if b.height < 0 then .error (.serdeRusqlite "invalid value: integer, expected u64")
  else .ok ⟨b.id, b.accountId, b.height.toNat, b.hash⟩

namespace Db

/-- `get_scanned_tip_blocks_by_account`: the highest block first. -/
def getScannedTipBlocksByAccount (db : Db) (accountId : AccountId) :
    Except WalletDbError (List ScannedTipBlock) :=
  (orderByDesc (·.height) (db.scannedTipBlocks.select (fun b => b.accountId == accountId))).mapM
    ScannedTipBlockRow.toScannedTipBlock

/-- The height of `get_latest_scanned_tip_block_by_account`. -/
def getLatestScannedTipBlockHeightByAccount (db : Db) (accountId : AccountId) : Option Nat :=
  (orderByDesc (·.height) (db.scannedTipBlocks.select (fun b => b.accountId == accountId))).head?.map
    (fun b => asU64 b.height)

/-- `insert_scanned_tip_block`: `INSERT OR IGNORE` under the unique index on the three columns. -/
def insertScannedTipBlock (db : Db) (accountId : AccountId) (height : Int) (hash : FixedHash) :
    Db :=
  if db.scannedTipBlocks.exists? (fun b =>
      b.accountId == accountId && b.height == height && b.hash == hash) then db
  else { db with
    scannedTipBlocks := db.scannedTipBlocks.insert (fun id => { id, accountId, height, hash }) }

def deleteScannedTipBlocksFromHeight (db : Db) (accountId : AccountId) (height : Nat) : Db :=
  { db with
    scannedTipBlocks := db.scannedTipBlocks.deleteWhere (fun b =>
      b.accountId == accountId && decide (asI64 height ≤ b.height)) }

def recentBlocksToKeep : Nat := 1000

def oldBlocksPruningInterval : Nat := 500

/-- `prune_scanned_tip_blocks`: of the blocks before the recent ones, those at the interval stay. -/
def pruneScannedTipBlocks (db : Db) (accountId : AccountId) (currentTipHeight : Nat) : Db :=
  { db with
    scannedTipBlocks := db.scannedTipBlocks.deleteWhere (fun b =>
      b.accountId == accountId && decide (b.height < asI64 (currentTipHeight - recentBlocksToKeep))
        && decide (0 ≤ b.height) && decide (b.height % asI64 oldBlocksPruningInterval ≠ 0)) }

end Db

/-- The recorded blocks once the block is recorded for the account: those before, and it. -/
structure TipRecorded (accountId : AccountId) (height : Int) (hash : FixedHash)
    (before after : AutoTable ScannedTipBlockRow) : Prop where
  kept : ∀ r ∈ before.rows, r ∈ after.rows
  new : ∀ r ∈ after.rows, r ∈ before.rows ∨
    (r.accountId = accountId ∧ r.height = height ∧ r.hash = hash)
  recorded : ∃ r ∈ after.rows, r.accountId = accountId ∧ r.height = height ∧ r.hash = hash

theorem tipRecorded_insertScannedTipBlock (db : Db) (accountId : AccountId) (height : Int)
    (hash : FixedHash) : TipRecorded accountId height hash db.scannedTipBlocks
      (db.insertScannedTipBlock accountId height hash).scannedTipBlocks := by
  unfold Db.insertScannedTipBlock
  split
  · next hex =>
      obtain ⟨r, hr, hp⟩ := Table.exists?_eq_true.mp hex
      simp only [Bool.and_eq_true, beq_iff_eq, and_assoc] at hp
      exact ⟨fun _ h => h, fun _ h => Or.inl h, ⟨r, hr, hp⟩⟩
  · refine ⟨fun r h => (AutoTable.mem_insert (fun _ => rfl)).mpr (Or.inl h), fun r h => ?_,
      ⟨_, (AutoTable.mem_insert (fun _ => rfl)).mpr (Or.inr rfl), rfl, rfl, rfl⟩⟩
    rcases (AutoTable.mem_insert (fun _ => rfl)).mp h with h | rfl
    · exact Or.inl h
    · exact Or.inr ⟨rfl, rfl, rfl⟩

end MinotariWallet
