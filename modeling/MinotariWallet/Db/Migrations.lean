import MinotariWallet.Lib.Relational

set_option autoImplicit false

/-! # `migrations/` and `db/mod.rs::connect_and_migrate`

The migrations from 24 on, which drops every table but `accounts` and creates the others anew. The
types of the columns are left out: no migration copies a value into a column of another type. -/

namespace MinotariWallet

open Sql

def nullable (name : String) : Column := { name }

def required (name : String) : Column := { name, notNull := true }

def requiredWithDefault (name : String) (v : Value) : Column :=
  { name, notNull := true, default := .constant v }

def requiredNow (name : String) : Column := { name, notNull := true, default := .currentTimestamp }

def booleanFalse : Value := .integer 0

def references (column parent : String) : ForeignKey := { column, parent }

/-- What the migrations up to 23 leave that the next does not drop. -/
def accountsTable : TableDef where
  columns := [required "id", required "friendly_name", required "fingerprint",
    required "encrypted_wallet", required "cipher_nonce", required "salt", required "birthday",
    requiredNow "created_at"]
  unique := [["friendly_name"], ["fingerprint"]]

/-- The table as migration 24 creates it, and as migration 27 does. -/
def outputsTable (walletOutputJson : Column) : TableDef where
  columns := [required "id", required "account_id", required "tx_id", required "output_hash",
    required "mined_in_block_hash", required "mined_in_block_height", required "value",
    requiredNow "created_at", walletOutputJson, required "mined_timestamp",
    nullable "confirmed_height", nullable "confirmed_hash", nullable "memo_parsed",
    nullable "memo_hex", requiredWithDefault "status" (.text "UNSPENT"), nullable "locked_at",
    nullable "locked_by_request_id", nullable "deleted_at", nullable "deleted_in_block_height",
    nullable "payment_reference"]
  foreignKeys := [references "account_id" "accounts"]

def outputsOutputHashActive : Index :=
  { name := "idx_outputs_output_hash_active", table := "outputs", columns := ["output_hash"]
    unique := true, whereNull := some "deleted_at" }

def outputsTxIdActive : Index :=
  { name := "idx_outputs_tx_id_active", table := "outputs", columns := ["tx_id"]
    unique := true, whereNull := some "deleted_at" }

/-- `00024-revert_outputs_id_and_add_tx_id`. -/
def migration24 : List Statement := [
  .dropTable "completed_transactions" true,
  .dropTable "balance_changes" true,
  .dropTable "inputs" true,
  .dropTable "scanned_tip_blocks" true,
  .dropTable "events" true,
  .dropTable "displayed_transactions" true,
  .dropTable "pending_transactions" true,
  .dropTable "outputs" true,
  .createTable "outputs" (outputsTable (nullable "wallet_output_json")),
  .createTable "scanned_tip_blocks" {
    columns := [required "id", required "account_id", required "hash", required "height",
      requiredNow "created_at"]
    foreignKeys := [references "account_id" "accounts"] },
  .createTable "inputs" {
    columns := [required "id", required "account_id", required "output_id",
      required "mined_in_block_hash", required "mined_in_block_height", required "mined_timestamp",
      requiredNow "created_at", nullable "deleted_at", nullable "deleted_in_block_height"]
    foreignKeys := [references "output_id" "outputs", references "account_id" "accounts"] },
  .createTable "events" {
    columns := [required "id", required "account_id", required "event_type",
      required "description", nullable "data_json", requiredNow "created_at"]
    foreignKeys := [references "account_id" "accounts"] },
  .createTable "balance_changes" {
    columns := [required "id", required "account_id", nullable "caused_by_output_id",
      nullable "caused_by_input_id", required "description", required "balance_debit",
      required "balance_credit", required "effective_date", required "effective_height",
      nullable "claimed_recipient_address", nullable "claimed_sender_address",
      nullable "memo_parsed", nullable "memo_hex", nullable "claimed_fee",
      nullable "claimed_amount", requiredNow "created_at"]
    foreignKeys := [references "account_id" "accounts", references "caused_by_output_id" "outputs",
      references "caused_by_input_id" "inputs"] },
  .createTable "pending_transactions" {
    columns := [required "id", required "account_id", required "idempotency_key",
      required "status", requiredWithDefault "requires_change_output" booleanFalse,
      requiredWithDefault "total_value" (.integer 0),
      requiredWithDefault "fee_without_change" (.integer 0),
      requiredWithDefault "fee_with_change" (.integer 0), required "expires_at",
      requiredNow "created_at"]
    unique := [["account_id", "idempotency_key"]]
    foreignKeys := [references "account_id" "accounts"] },
  .createTable "completed_transactions" {
    columns := [required "id", required "account_id", required "pending_tx_id", required "status",
      nullable "last_rejected_reason", required "kernel_excess", nullable "sent_payref",
      nullable "mined_height", nullable "mined_block_hash", nullable "confirmation_height",
      requiredWithDefault "broadcast_attempts" (.integer 0), nullable "sent_output_hash",
      required "serialized_transaction", requiredNow "created_at", requiredNow "updated_at"]
    foreignKeys := [references "account_id" "accounts",
      references "pending_tx_id" "pending_transactions"] },
  .createTable "displayed_transactions" {
    columns := [required "id", required "account_id", required "direction", required "source",
      required "status", required "amount", required "block_height", required "timestamp",
      required "transaction_json", requiredNow "created_at", requiredNow "updated_at",
      nullable "payref"] },
  .createIndex { name := "idx_scanned_tip_blocks_account_height", table := "scanned_tip_blocks"
                 columns := ["account_id", "height"] },
  .createIndex { name := "idx_scanned_tip_blocks_account_height_hash"
                 table := "scanned_tip_blocks", columns := ["account_id", "height", "hash"]
                 unique := true },
  .createIndex { name := "idx_balance_changes_account_height", table := "balance_changes"
                 columns := ["account_id", "effective_height"] },
  .createIndex outputsOutputHashActive,
  .createIndex { name := "idx_outputs_account_mined_height_active", table := "outputs"
                 columns := ["account_id", "mined_in_block_height"] },
  .createIndex { name := "idx_outputs_status_active", table := "outputs", columns := ["status"] },
  .createIndex { name := "idx_outputs_account_status_active", table := "outputs"
                 columns := ["account_id", "status"] },
  .createIndex { name := "idx_outputs_account_confirmed_active", table := "outputs"
                 columns := ["account_id"] },
  .createIndex outputsTxIdActive,
  .createIndex { name := "idx_inputs_output_id_unique_active", table := "inputs"
                 columns := ["output_id"], unique := true, whereNull := some "deleted_at" },
  .createIndex { name := "idx_inputs_account_mined_height_active", table := "inputs"
                 columns := ["account_id", "mined_in_block_height"] },
  .createIndex { name := "idx_pending_transactions_status_expires_at"
                 table := "pending_transactions", columns := ["status", "expires_at"] },
  .createIndex { name := "idx_completed_transactions_account_id", table := "completed_transactions"
                 columns := ["account_id"] },
  .createIndex { name := "idx_completed_transactions_pending_tx_id"
                 table := "completed_transactions", columns := ["pending_tx_id"] },
  .createIndex { name := "idx_completed_transactions_status", table := "completed_transactions"
                 columns := ["status"] },
  .createIndex { name := "idx_completed_transactions_account_status"
                 table := "completed_transactions", columns := ["account_id", "status"] },
  .createIndex { name := "idx_completed_transactions_mined_height"
                 table := "completed_transactions", columns := ["mined_height"] },
  .createIndex { name := "idx_displayed_transactions_account_id", table := "displayed_transactions"
                 columns := ["account_id"] },
  .createIndex { name := "idx_displayed_transactions_status", table := "displayed_transactions"
                 columns := ["status"] },
  .createIndex { name := "idx_displayed_transactions_block_height"
                 table := "displayed_transactions", columns := ["block_height"] },
  .createIndex { name := "idx_displayed_transactions_account_status"
                 table := "displayed_transactions", columns := ["account_id", "status"] },
  .createIndex { name := "idx_displayed_transactions_account_height"
                 table := "displayed_transactions", columns := ["account_id", "block_height"] },
  .createIndex { name := "idx_displayed_transactions_payref", table := "displayed_transactions"
                 columns := ["payref"] }]

/-- `00025-add_reversal_flags_to_balance_changes`. -/
def migration25 : List Statement := [
  .addColumn "balance_changes" (requiredWithDefault "is_reversal" booleanFalse),
  .addColumn "balance_changes" (nullable "reversal_of_balance_change_id")
    (some (references "reversal_of_balance_change_id" "balance_changes")),
  .addColumn "balance_changes" (requiredWithDefault "is_reversed" booleanFalse),
  .createIndex { name := "idx_balance_changes_reversal_of", table := "balance_changes"
                 columns := ["reversal_of_balance_change_id"] },
  .createIndex { name := "idx_balance_changes_is_reversed", table := "balance_changes"
                 columns := ["is_reversed"] }]

/-- `00026-create_webhook_queue`. -/
def migration26 : List Statement := [
  .createTable "webhook_queue" {
    columns := [required "id", nullable "event_id", required "event_type", required "payload",
      required "target_url", requiredWithDefault "status" (.text "pending"),
      requiredWithDefault "attempt_count" (.integer 0), requiredNow "next_retry_at",
      requiredNow "created_at", nullable "last_error"]
    foreignKeys := [{ references "event_id" "events" with onDeleteSetNull := true }] } true,
  .createIndex { name := "idx_webhook_queue_pending", table := "webhook_queue"
                 columns := ["status", "next_retry_at"] } true]

/-- The columns that migration 27 copies. -/
def outputsColumns : List String := ["id", "account_id", "tx_id", "output_hash",
  "mined_in_block_hash", "mined_in_block_height", "value", "created_at", "wallet_output_json",
  "mined_timestamp", "confirmed_height", "confirmed_hash", "memo_parsed", "memo_hex", "status",
  "locked_at", "locked_by_request_id", "deleted_at", "deleted_in_block_height",
  "payment_reference"]

/-- `00027-make_wallet_output_json_not_null`. -/
def migration27 : List Statement := [
  .dropIndexIfExists "idx_outputs_output_hash_active",
  .dropIndexIfExists "idx_outputs_account_mined_height_active",
  .dropIndexIfExists "idx_outputs_status_active",
  .dropIndexIfExists "idx_outputs_account_status_active",
  .dropIndexIfExists "idx_outputs_account_confirmed_active",
  .dropIndexIfExists "idx_outputs_tx_id_active",
  .createTable "outputs_new" (outputsTable (required "wallet_output_json")),
  .insertSelect "outputs_new" outputsColumns "outputs" "wallet_output_json",
  .dropTable "outputs",
  .renameTable "outputs_new" "outputs",
  .createIndex outputsOutputHashActive,
  .createIndex { name := "idx_outputs_account_mined_height_active", table := "outputs"
                 columns := ["account_id", "mined_in_block_height"] },
  .createIndex { name := "idx_outputs_status_active", table := "outputs", columns := ["status"] },
  .createIndex { name := "idx_outputs_account_status_active", table := "outputs"
                 columns := ["account_id", "status"] },
  .createIndex { name := "idx_outputs_account_confirmed_active", table := "outputs"
                 columns := ["account_id"] },
  .createIndex outputsTxIdActive]

/-- `00028-create_burn_proofs`. -/
def migration28 : List Statement := [
  .createTable "burn_proofs" {
    columns := [required "id", required "account_id", required "output_hash",
      required "commitment", required "claim_public_key", required "ownership_proof_nonce",
      required "ownership_proof_sig", required "kernel_excess", required "kernel_excess_nonce",
      required "kernel_excess_sig", required "sender_offset_public_key", required "encrypted_data",
      required "value", requiredWithDefault "kernel_fee" (.integer 0),
      requiredWithDefault "kernel_lock_height" (.integer 0),
      requiredWithDefault "status" (.text "pending_merkle"), requiredNow "created_at",
      requiredNow "updated_at"]
    foreignKeys := [references "account_id" "accounts"] },
  .createIndex { name := "idx_burn_proofs_output_hash", table := "burn_proofs"
                 columns := ["output_hash"], unique := true },
  .createIndex { name := "idx_burn_proofs_status", table := "burn_proofs"
                 columns := ["status"] }]

/-- `00029-add_is_burn_to_outputs`. -/
def migration29 : List Statement :=
  [.addColumn "outputs" (requiredWithDefault "is_burn" (.integer 0))]

/-- `00030-create_payref_history`. -/
def migration30 : List Statement := [
  .createTable "payref_history" {
    columns := [nullable "id", required "account_id", required "transaction_id",
      required "old_payref", nullable "output_hash", requiredNow "created_at"]
    foreignKeys := [references "account_id" "accounts"] } true,
  .createIndex { name := "idx_payref_history_lookup", table := "payref_history"
                 columns := ["account_id", "old_payref"] }]

/-- The migrations with the version that each brings the database to. -/
def migrations : List (Nat × List Statement) := [(24, migration24), (25, migration25),
  (26, migration26), (27, migration27), (28, migration28), (29, migration29), (30, migration30)]

def latestVersion : Nat := 30

/-- A database file; `sqlxMigrations` counts the rows of `_sqlx_migrations`, if it has that
    table. -/
structure WalletFile where
  database : Database
  userVersion : Nat
  sqlxMigrations : Option Nat

inductive MigrationError where
  | databaseTooFarAhead
  | sql (e : SqlError)
deriving DecidableEq

/-- `attempt_sqlx_adoption`. -/
def attemptSqlxAdoption (file : WalletFile) : WalletFile :=
  match file.sqlxMigrations with
  | none => file
  | some count => { file with
      userVersion := if 0 < count then count else file.userVersion
      sqlxMigrations := none }

/-- One migration, in a transaction. -/
def applyMigration (now : Value) (file : WalletFile) (migration : Nat × List Statement) :
    Except SqlError WalletFile := do
  let database ← file.database.execBatch now migration.2
  pure { file with database, userVersion := migration.1 }

/-- `MIGRATIONS.to_latest`. -/
def toLatest (now : Value) (file : WalletFile) : Except MigrationError WalletFile :=
  if latestVersion < file.userVersion then .error .databaseTooFarAhead
  else ((migrations.filter (fun migration => file.userVersion < migration.1)).foldlM
    (applyMigration now) file).mapError .sql

/-- `connect_and_migrate`; the pool sets `foreign_keys = ON` on every connection. -/
def connectAndMigrate (now : Value) (file : WalletFile) : Except MigrationError WalletFile :=
  toLatest now (attemptSqlxAdoption file)

/-- The schema that the migrations up to the version leave. -/
def schemaAt (version : Nat) : Except SqlError Schema :=
  ((migrations.filter (fun migration => migration.1 ≤ version)).flatMap (·.2)).foldlM
    Statement.execSchema { tables := [("accounts", accountsTable)] }

/-- A row with these values; the columns that are not listed are null. -/
def rowOf (values : List (String × Value)) : Row := fun c => (values.lookup c).getD .null

/-- A computed schema has the property. -/
def Holds (s : Except SqlError Schema) (P : Schema → Prop) : Prop :=
  match s with
  | .ok s => P s
  | .error _ => False

instance (s : Except SqlError Schema) (P : Schema → Prop) [DecidablePred P] :
    Decidable (Holds s P) := by
  unfold Holds
  split <;> infer_instance

end MinotariWallet
