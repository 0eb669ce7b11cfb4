import MinotariWallet.Db.Migrations
import MinotariWallet.Lib.Deletions
import MinotariWallet.Displayed.Payrefs
import MinotariWallet.Transactions.Reservation

set_option autoImplicit false

/-! # `db/accounts.rs::delete_account`

The tables it clears are a list of its own, while the schema is what the migrations have made. -/

namespace MinotariWallet

open Sql

inductive DeleteAccountError where
  | invalidInput (message : String)
  | sql (e : SqlError)
deriving DecidableEq

/-- `get_account_by_name`. -/
def getAccountByName (db : Database) (friendlyName : String) : Option Row :=
  (db.rows "accounts").find? (fun r => r "friendly_name" == .text friendlyName)

/-- The tables from child to parent. -/
def tablesToClear : List String := ["balance_changes", "inputs", "outputs",
  "completed_transactions", "pending_transactions", "scanned_tip_blocks", "events",
  "displayed_transactions"]

/-- The tables and columns that `delete_account` deletes by. -/
def accountDeletions : List (String × String) :=
  tablesToClear.map (·, "account_id") ++ [("accounts", "id")]

/-- `delete_account`. -/
def deleteAccount (now : Value) (db : Database) (friendlyName : String) :
    Except DeleteAccountError Database :=
  match getAccountByName db friendlyName with
  | none => .error (.invalidInput s!"Account '\x7bfriendlyName\x7d' not found")
  | some account => (db.execBatch now (deletions (account "id") accountDeletions)).mapError .sql

/-- No row of a table with an `account_id` refers to the account. -/
def NoRowsOf (db : Database) (accountId : Value) : Prop :=
  ∀ t ∈ db.schema.tables, "account_id" ∈ t.2.columnNames →
    ∀ r ∈ db.rows t.1, r "account_id" ≠ accountId

/-- The tables with an `account_id` that are not cleared. -/
def tablesLeft : List String := ["burn_proofs", "payref_history"]

theorem tablesLeft_not_cleared : ∀ t ∈ tablesLeft, t ∉ tablesToClear := by decide

/-- The account has no burn proof and no old payment reference, and no row of another account refers
    to one of its rows. -/
structure Deletable (db : Database) (accountId : Value) : Prop where
  tablesLeft : ∀ t ∈ tablesLeft, ∀ r ∈ db.rows t, r "account_id" ≠ accountId
  references : ∀ t ∈ db.schema.tables, ∀ fk ∈ t.2.foreignKeys, fk.parent ∈ tablesToClear →
    fk.onDeleteSetNull = false → ∀ r ∈ db.rows t.1, r "account_id" ≠ accountId →
      ∀ q ∈ db.rows fk.parent, q "account_id" = accountId → ¬fk.Refers r q

/-- Every key that refers to a table to clear and is not set to null is of that table or of one that
    is cleared before. -/
def ChildrenFirst (s : Schema) : List String → List String → Prop
  | _, [] => True
  | before, table :: rest => (table ∉ before ∧ ∀ t ∈ s.tables, ∀ fk ∈ t.2.foreignKeys,
      fk.parent = table → fk.onDeleteSetNull = false → t.1 ∈ before ++ [table]) ∧
    ChildrenFirst s (before ++ [table]) rest

instance decidableChildrenFirst (s : Schema) :
    ∀ before rest, Decidable (ChildrenFirst s before rest)
  | _, [] => isTrue trivial
  | before, table :: rest =>
    have : Decidable (ChildrenFirst s (before ++ [table]) rest) :=
      decidableChildrenFirst s (before ++ [table]) rest
    inferInstanceAs (Decidable ((table ∉ before ∧ ∀ t ∈ s.tables, ∀ fk ∈ t.2.foreignKeys,
      fk.parent = table → fk.onDeleteSetNull = false → t.1 ∈ before ++ [table]) ∧
        ChildrenFirst s (before ++ [table]) rest))

/-- The keys that refer to accounts. -/
def AccountKeys (s : Schema) : Prop :=
  ∀ t ∈ s.tables, ∀ fk ∈ t.2.foreignKeys, fk.parent = "accounts" → fk.onDeleteSetNull = false →
    fk.column = "account_id" ∧ fk.parentColumn = "id" ∧ t.1 ∈ tablesToClear ++ tablesLeft

/-- The tables with an `account_id`. -/
def AccountTables (s : Schema) : Prop :=
  ∀ t ∈ s.tables, "account_id" ∈ t.2.columnNames →
    t.1 ∈ tablesToClear ++ tablesLeft ∧ s.NoSetNull t.1

/-- The two that `delete_account` does not know of. -/
def HasTablesLeft (s : Schema) : Prop :=
  ∀ name ∈ tablesLeft, ∃ t ∈ s.tables, t.1 = name ∧ "account_id" ∈ t.2.columnNames

/-- What `delete_account` relies on. -/
structure LatestSchema (s : Schema) : Prop where
  unmixed : s.Unmixed
  deletes : ∀ c ∈ accountDeletions, s.Deletes c
  childrenFirst : ChildrenFirst s [] tablesToClear
  keys : AccountKeys s
  tables : AccountTables s
  left : HasTablesLeft s

instance : DecidablePred AccountKeys := fun s => by
  unfold AccountKeys
  infer_instance

instance : DecidablePred AccountTables := fun s => by
  unfold AccountTables
  infer_instance

instance : DecidablePred HasTablesLeft := fun s => by
  unfold HasTablesLeft
  infer_instance

theorem latest_computed : Holds (schemaAt latestVersion) (fun s => s.Unmixed ∧
    (∀ c ∈ accountDeletions, s.Deletes c) ∧ ChildrenFirst s [] tablesToClear ∧ AccountKeys s ∧
      AccountTables s ∧ HasTablesLeft s) := by decide +kernel

theorem latestSchema {s : Schema} (h : schemaAt latestVersion = .ok s) : LatestSchema s := by
  have hcomputed := latest_computed
  rw [h] at hcomputed
  obtain ⟨h₁, h₂, h₃, h₄, h₅, h₆⟩ := hcomputed
  exact ⟨h₁, h₂, h₃, h₄, h₅, h₆⟩

section DeleteAccount

variable {s : Schema} {rows : String → List Row} {accountId : Value}

/-- A row of another account refers to a row of the account in the table. -/
def ReferredFromOutside (s : Schema) (rows : String → List Row) (accountId : Value)
    (table : String) : Prop :=
  ∃ t ∈ s.tables, ∃ fk ∈ t.2.foreignKeys, fk.parent = table ∧ fk.onDeleteSetNull = false ∧
    ∃ r ∈ rows t.1, r "account_id" ≠ accountId ∧
      ∃ q ∈ rows table, q "account_id" = accountId ∧ fk.Refers r q

/-- When its children have been cleared before it, only rows of other accounts are in the way of a
    table. -/
theorem blocked_iff {before : List String} {table : String} (hnew : table ∉ before)
    (hchildren : ∀ t ∈ s.tables, ∀ fk ∈ t.2.foreignKeys, fk.parent = table →
      fk.onDeleteSetNull = false → t.1 ∈ before ++ [table]) :
    Blocked s rows accountId (before.map (·, "account_id")) (table, "account_id") ↔
      ReferredFromOutside s rows accountId table := by
  have hcleared : ∀ t ∈ before ++ [table], ∀ r,
      r ∈ clearRows rows accountId (before.map (·, "account_id") ++ [(table, "account_id")]) t ↔
        r ∈ rows t ∧ r "account_id" ≠ accountId := by
    intro t ht r
    rw [show [(table, "account_id")] = [table].map (·, "account_id") from rfl, ← List.map_append,
      mem_clearRows]
    refine and_congr_right (fun _ => ⟨fun hall => ?_, fun hne c hc _ => ?_⟩)
    · exact hall (t, "account_id") (List.mem_map_of_mem ht) rfl
    · obtain ⟨t', -, rfl⟩ := List.mem_map.mp hc
      exact hne
  have hkept : ∀ q, q ∈ clearRows rows accountId (before.map (·, "account_id")) table ↔
      q ∈ rows table := by
    intro q
    rw [mem_clearRows]
    refine and_iff_left (fun c hc hname => ?_)
    obtain ⟨t, ht, rfl⟩ := List.mem_map.mp hc
    exact absurd (hname ▸ ht) hnew
  unfold Blocked ReferredFromOutside
  constructor
  · rintro ⟨t, ht, fk, hfk, hparent, hkeeps, r, hr, q, hq, hv, hrefers⟩
    obtain ⟨hr, hne⟩ := (hcleared _ (hchildren t ht fk hfk hparent hkeeps) r).mp hr
    exact ⟨t, ht, fk, hfk, hparent, hkeeps, r, hr, hne, q, (hkept q).mp hq, hv, hrefers⟩
  · rintro ⟨t, ht, fk, hfk, hparent, hkeeps, r, hr, hne, q, hq, hv, hrefers⟩
    exact ⟨t, ht, fk, hfk, hparent, hkeeps, r,
      (hcleared _ (hchildren t ht fk hfk hparent hkeeps) r).mpr ⟨hr, hne⟩, q, (hkept q).mpr hq, hv,
      hrefers⟩

theorem unblocked_iff {before tables : List String} {rest : List (String × String)}
    (hfirst : ChildrenFirst s before tables) :
    Unblocked s rows accountId (before.map (·, "account_id"))
        (tables.map (·, "account_id") ++ rest) ↔
      (∀ table ∈ tables, ¬ReferredFromOutside s rows accountId table) ∧
        Unblocked s rows accountId ((before ++ tables).map (·, "account_id")) rest := by
  induction tables generalizing before with
  | nil => simp
  | cons table tables ih =>
      obtain ⟨⟨hnew, hchildren⟩, hrest⟩ := hfirst
      simp only [List.map_cons, List.cons_append, Unblocked, blocked_iff hnew hchildren]
      rw [show before.map (·, "account_id") ++ [(table, "account_id")] =
        (before ++ [table]).map (·, "account_id") by simp, ih hrest]
      simp [and_assoc]

/-- After the tables are cleared, only the two that are left are in the way of the account. -/
theorem blocked_account (hs : LatestSchema s) (hleft : ∀ t ∈ tablesLeft, ∀ r ∈ rows t,
      r "account_id" ≠ accountId) :
    ¬Blocked s rows accountId (tablesToClear.map (·, "account_id")) ("accounts", "id") := by
  rintro ⟨t, ht, fk, hfk, hparent, hkeeps, r, hr, q, -, hv, -, heq⟩
  obtain ⟨hcolumn, hpcolumn, htable⟩ := hs.keys t ht fk hfk hparent hkeeps
  rw [hcolumn, hpcolumn, hv] at heq
  obtain ⟨hr, hcleared⟩ := mem_clearRows.mp hr
  rcases List.mem_append.mp htable with htable | htable
  · exact hcleared (t.1, "account_id")
      (List.mem_append_left _ (List.mem_map_of_mem htable)) rfl heq
  · exact hleft t.1 htable r hr heq

/-- What the deletions leave in a table with an `account_id`. -/
theorem mem_cleared (hs : LatestSchema s) {rows' : String → List Row}
    (hagrees : AgreesCleared s rows accountId accountDeletions rows') {t : String × TableDef}
    (ht : t ∈ s.tables) (hcolumn : "account_id" ∈ t.2.columnNames) {r : Row} :
    r ∈ rows' t.1 ↔ r ∈ rows t.1 ∧ (t.1 ∈ tablesToClear → r "account_id" ≠ accountId) := by
  obtain ⟨htable, hplain⟩ := hs.tables t ht hcolumn
  rw [hagrees t.1 hplain, mem_clearRows]
  refine and_congr_right (fun _ => ⟨fun hall hmem => ?_, fun hne c hc hname => ?_⟩)
  · exact hall (t.1, "account_id") (List.mem_append_left _ (List.mem_map_of_mem hmem)) rfl
  · rcases List.mem_append.mp hc with hc | hc
    · obtain ⟨t', ht', rfl⟩ := List.mem_map.mp hc
      exact hne (hname ▸ ht')
    · obtain rfl := List.mem_singleton.mp hc
      rw [← hname] at htable
      exact absurd htable (by decide)

/-- An account is deleted, with all rows that refer to it, exactly if it is `Deletable`. -/
theorem deleteAccount_iff (now : Value) (db : Database) (friendlyName : String) (account : Row)
    (hschema : schemaAt latestVersion = .ok db.schema)
    (haccount : getAccountByName db friendlyName = some account) :
    (∃ db', deleteAccount now db friendlyName = .ok db' ∧ NoRowsOf db' (account "id")) ↔
      Deletable db (account "id") := by
  have hs := latestSchema hschema
  obtain ⟨s, rows⟩ := db
  have hstart : AgreesCleared s rows (account "id") [] rows := by
    intro t _
    simp [clearRows]
  obtain ⟨hfails, hsucceeds⟩ := hstart.execBatch hs.unmixed hs.deletes now
  have hunblocked : Unblocked s rows (account "id") [] accountDeletions ↔
      (∀ table ∈ tablesToClear, ¬ReferredFromOutside s rows (account "id") table) ∧
        Unblocked s rows (account "id") (tablesToClear.map (·, "account_id"))
          [("accounts", "id")] :=
    unblocked_iff hs.childrenFirst
  have hresult : ∀ db', deleteAccount now ⟨s, rows⟩ friendlyName = .ok db' ↔
      Database.execBatch now ⟨s, rows⟩ (deletions (account "id") accountDeletions) = .ok db' := by
    intro db'
    unfold deleteAccount
    rw [haccount]
    exact mapError_ok
  constructor
  · rintro ⟨db', hrun, hnone⟩
    rw [hresult] at hrun
    have hun : Unblocked s rows (account "id") [] accountDeletions := by
      by_contra hnot
      obtain ⟨e, he⟩ := hfails hnot
      rw [he] at hrun
      cases hrun
    obtain ⟨rows', hbatch, hagrees⟩ := hsucceeds hun
    obtain rfl := Except.ok.inj (hbatch.symm.trans hrun)
    refine ⟨fun name hname r hr => ?_, ?_⟩
    · obtain ⟨t, ht, rfl, hcolumn⟩ := hs.left name hname
      refine hnone t ht hcolumn r ((mem_cleared hs hagrees ht hcolumn).mpr ⟨hr, fun hmem => ?_⟩)
      exact absurd hmem (tablesLeft_not_cleared t.1 hname)
    · intro t ht fk hfk hparent hkeeps r hr hne q hq hv hrefers
      exact (hunblocked.mp hun).1 fk.parent hparent
        ⟨t, ht, fk, hfk, rfl, hkeeps, r, hr, hne, q, hq, hv, hrefers⟩
  · intro hdeletable
    have hoff : ∀ table ∈ tablesToClear, ¬ReferredFromOutside s rows (account "id") table := by
      rintro table htable ⟨t, ht, fk, hfk, rfl, hkeeps, r, hr, hne, q, hq, hv, hrefers⟩
      exact hdeletable.references t ht fk hfk htable hkeeps r hr hne q hq hv hrefers
    obtain ⟨rows', hbatch, hagrees⟩ := hsucceeds (hunblocked.mpr
      ⟨hoff, blocked_account hs hdeletable.tablesLeft, trivial⟩)
    refine ⟨⟨s, rows'⟩, (hresult _).mpr hbatch, fun t ht hcolumn r hr => ?_⟩
    obtain ⟨hr, hcleared⟩ := (mem_cleared hs hagrees ht hcolumn).mp hr
    rcases List.mem_append.mp (hs.tables t ht hcolumn).1 with htable | htable
    · exact hcleared htable
    · exact hdeletable.tablesLeft t.1 htable r hr

end DeleteAccount

/-! ## Databases that the calls reach -/

def Value.ofId (id : Nat) : Value := .integer id

def Value.ofIdOption : Option Nat → Value
  | none => .null
  | some id => .integer id

/-- The ids, the names and the columns of foreign keys. The calls that are modelled insert no burn
    proof. -/
def keyRows (accounts : List (AccountId × String)) (db : Db) : String → List Row
  | "accounts" => accounts.map (fun (id, friendlyName) =>
      rowOf [("id", Value.ofId id), ("friendly_name", .text friendlyName)])
  | "outputs" => db.outputs.rows.map (fun o =>
      rowOf [("id", Value.ofId o.id), ("account_id", Value.ofId o.accountId)])
  | "inputs" => db.inputs.rows.map (fun i => rowOf [("id", Value.ofId i.id),
      ("account_id", Value.ofId i.accountId), ("output_id", Value.ofId i.outputId)])
  | "balance_changes" => db.balanceChanges.rows.map (fun b => rowOf [("id", Value.ofId b.id),
      ("account_id", Value.ofId b.accountId),
      ("caused_by_output_id", Value.ofIdOption b.causedByOutputId),
      ("caused_by_input_id", Value.ofIdOption b.causedByInputId),
      ("reversal_of_balance_change_id", Value.ofIdOption b.reversalOfBalanceChangeId)])
  | "scanned_tip_blocks" => db.scannedTipBlocks.rows.map (fun t =>
      rowOf [("id", Value.ofId t.id), ("account_id", Value.ofId t.accountId)])
  | "events" => db.events.rows.map (fun e =>
      rowOf [("id", Value.ofId e.id), ("account_id", Value.ofId e.accountId)])
  | "pending_transactions" => db.pendingTransactions.rows.map (fun p =>
      rowOf [("id", Value.ofId p.id), ("account_id", Value.ofId p.accountId)])
  | "completed_transactions" => db.completedTransactions.rows.map (fun c =>
      rowOf [("id", Value.ofId c.id), ("account_id", Value.ofId c.accountId),
        ("pending_tx_id", Value.ofId c.pendingTxId)])
  | "displayed_transactions" => db.displayedTransactions.rows.map (fun d =>
      rowOf [("id", Value.ofId d.id), ("account_id", Value.ofId d.accountId)])
  | "payref_history" => db.payrefHistory.rows.map (fun p =>
      rowOf [("id", Value.ofId p.id), ("account_id", Value.ofId p.accountId)])
  | "webhook_queue" => db.webhookQueue.rows.map (fun w =>
      rowOf [("id", Value.ofId w.id), ("event_id", Value.ofIdOption w.eventId)])
  | _ => []

/-- The keys of a database of the latest version. -/
def databaseOf (accounts : List (AccountId × String)) (db : Db) : Database :=
  ⟨(schemaAt latestVersion).toOption.getD {}, keyRows accounts db⟩

/-- Account 1 receives two outputs. -/
def receivedOnly : List SystemAction :=
  [.processBlock oneAccount ⟨10, 110, [(500, { outputHash := 500, value := 100000 }, 0),
    (501, { outputHash := 501, value := 90000 }, 0)], [], 1000⟩ 1 0]

/-- What is displayed of a payment of the first. -/
def sentDisplayed : Except String DisplayedTransaction :=
  (buildPendingDisplayedTransaction plainEnv.toExternals
    { payment with selectedUtxos := [⟨1, 7500, { outputHash := 500, value := 100000 }⟩] }
    signedPayment 5 1100).mapError (fun _ => "not built")

/-- The payment is sent and mined, and its block is rolled back. -/
def sentAndRolledBack : List SystemAction :=
  receivedOnly ++ prepareStatements ++ .finalize 0 900 (some 605) sentDisplayed ::
    List.replicate 4 (.statement 1 { now := 10 }) ++
    [.send 1, .answer 0 (.ok ⟨true, .other ""⟩), .receive 1, .statement 1 { now := 10 },
      .statement 1 { now := 10 }, .processBlock oneAccount ⟨12, 112, [], [500], 1240⟩ 1 0,
      .rollbackFromHeight 1 12 none 1300]

/-- `plainTransactionEnv` with displayed transactions. -/
def displayingEnv : TransactionEnv :=
  { plainTransactionEnv with toScanEnv := plainEnv.toExternals.scanEnv .stable }

def receivedDb : Db :=
  ((Transition.run (WalletSystem.step displayingEnv) { db := .empty } receivedOnly).get
    (by decide +kernel)).db

/-- An account that has received an output is deleted. -/
theorem receivedDb_deletable :
    ∃ db', deleteAccount .null (databaseOf [(1, "default")] receivedDb) "default" = .ok db' ∧
      NoRowsOf db' (.integer 1) :=
  (deleteAccount_iff .null (databaseOf [(1, "default")] receivedDb) "default"
    (rowOf [("id", .integer 1), ("friendly_name", .text "default")]) (by decide +kernel)
    rfl).mpr ⟨by decide +kernel, by decide +kernel⟩

/-- The rollback has kept the payment reference in the old block, and that is in the way of the
    account. -/
theorem rolledBack_not_deletable :
    ¬∀ (env : TransactionEnv) (actions : List SystemAction) (w : WalletSystem),
      Transition.run (WalletSystem.step env) { db := .empty } actions = some w →
      ∀ (accounts : List (AccountId × String)) (friendlyName : String) (account : Row),
        (databaseOf accounts w.db).ForeignKeysHold →
        getAccountByName (databaseOf accounts w.db) friendlyName = some account →
        ∃ db', deleteAccount .null (databaseOf accounts w.db) friendlyName = .ok db' ∧
          NoRowsOf db' (account "id") := by
  intro hall
  obtain ⟨w, hrun, hfails⟩ : ∃ w, Transition.run (WalletSystem.step displayingEnv)
      { db := .empty } sentAndRolledBack = some w ∧
      decide ((databaseOf [(1, "default")] w.db).ForeignKeysHold ∧
        (deleteAccount .null (databaseOf [(1, "default")] w.db) "default").isOk = false) = true :=
    Transition.exists_run_of_any (by decide +kernel)
  obtain ⟨hkeys, hfails⟩ := of_decide_eq_true hfails
  obtain ⟨db', hok, -⟩ := hall _ _ w hrun [(1, "default")] "default" _ hkeys rfl
  rw [hok] at hfails
  cases hfails

end MinotariWallet
