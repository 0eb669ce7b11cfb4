import MinotariWallet.Lib.Transition
import MinotariWallet.Scan.Rules

set_option autoImplicit false

/-! # Runs of scan, lock and rollback calls

The calls that change what the wallet owns, one at a time on one database. A `process_block` or a
`rollback_from_height` that returns `Err` is undone by the transaction around it, so only calls that
return are steps. -/

namespace MinotariWallet

open Sql Exec

inductive LedgerAction where
  | processBlock (bp : BlockProcessor) (block : BlockScanResult) (accountId : AccountId)
      (now : Timestamp)
  | lockOutput (outputId : Id) (lockedByRequestId : RequestId) (lockedAt : Timestamp)
  | unlockOutputsForRequest (lockedByRequestId : RequestId)
  | rollbackFromHeight (accountId : AccountId) (height : Nat)
      (webhookConfig : Option WebhookTriggerConfig) (now : Timestamp)

/-- The database after one call, `none` when the call returns `Err`. -/
def ledgerStep (env : ScanEnv) (db : Db) : LedgerAction → Option Db
  | .processBlock bp block accountId now =>
    (runOk (bp.processBlock env now block accountId) db).map (·.2)
  | .lockOutput outputId lockedByRequestId lockedAt =>
    some (db.lockOutput outputId lockedByRequestId lockedAt)
  | .unlockOutputsForRequest lockedByRequestId =>
    some (db.unlockOutputsForRequest lockedByRequestId)
  | .rollbackFromHeight accountId height webhookConfig now =>
    (runOk (rollbackFromHeight accountId height webhookConfig now) db).map (·.2)

/-- An environment to run the calls in: payment references and transaction ids that differ where
    their arguments do, and no displayed transactions. -/
def plainEnv : ScanEnv where
  generatePaymentReference := fun blockHash outputHash => 1000 * blockHash + outputHash
  newDeterministic := fun viewKey outputHash => 1000 * viewKey + outputHash
  createNewUpdatedDisplayTransactions := fun _ _ _ _ _ => .ok ([], [])

/-- A program that returns takes `P` to `Q`, so a step that runs it does. -/
theorem of_runOk_map {α : Type} {x : DbM α} {P Q : Ledger → Prop}
    (hx : Ensures (fun db => P db.ledger) x (fun _ db => Q db.ledger)) {db db' : Db}
    (hp : P db.ledger) (h : (runOk x db).map (·.2) = some db') : Q db'.ledger := by
  obtain ⟨⟨a, db₁⟩, hrun, rfl⟩ := Option.map_eq_some_iff.mp h
  exact hx.of_runOk hp hrun

end MinotariWallet
