import MinotariWallet.Db.Migrations
import MinotariWallet.Lib.Rebuild

set_option autoImplicit false

/-! # What an upgrade keeps

All migrations after 24 add tables, columns and indexes, except 27, which rebuilds `outputs` with
foreign keys enforced. -/

namespace MinotariWallet

open Sql

/-- The migrations that a database at the version still needs. -/
def pendingMigrations (version : Nat) : List (Nat × List Statement) :=
  migrations.filter (fun migration => version < migration.1)

/-- The migrations only add, one after another. -/
def AdditiveFrom (s : Schema) : List (Nat × List Statement) → Prop
  | [] => True
  | migration :: rest => Additive s [] migration.2 ∧
    match migration.2.foldlM Statement.execSchema s with
    | .error _ => False
    | .ok s' => AdditiveFrom s' rest

instance decidableAdditiveFrom : ∀ (s : Schema) (ms : List (Nat × List Statement)),
    Decidable (AdditiveFrom s ms)
  | _, [] => isTrue trivial
  | s, migration :: rest =>
    match h : migration.2.foldlM Statement.execSchema s with
    | .error _ => isFalse (by simp only [AdditiveFrom, h, and_false, not_false_iff])
    | .ok s' =>
      have : Decidable (AdditiveFrom s' rest) := decidableAdditiveFrom s' rest
      decidable_of_iff (Additive s [] migration.2 ∧ AdditiveFrom s' rest)
        (by simp only [AdditiveFrom, h])

/-- Nothing is lost: every table, column and row is there, with the same values, and the foreign
    keys hold. -/
structure KeptBy (db db' : Database) : Prop where
  includes : db'.schema.Includes db.schema
  carries : db.schema.Carries db.rows db'.rows
  foreignKeys : db'.ForeignKeysHold

/-- The same with all constraints. -/
structure KeptConsistent (db db' : Database) : Prop where
  includes : db'.schema.Includes db.schema
  carries : db.schema.Carries db.rows db'.rows
  consistent : db'.Consistent

theorem KeptConsistent.keptBy {db db' : Database} (h : KeptConsistent db db') : KeptBy db db' :=
  ⟨h.includes, h.carries, h.consistent.foreignKeys⟩

theorem KeptConsistent.trans {db db' db'' : Database} (h : KeptConsistent db db')
    (h' : KeptConsistent db' db'') : KeptConsistent db db'' :=
  ⟨h'.includes.trans h.includes, h.carries.trans h.includes h'.carries, h'.consistent⟩

theorem AdditiveFrom.applyMigrations {ms : List (Nat × List Statement)} {file : WalletFile}
    (hadditive : AdditiveFrom file.database.schema ms) (now : Value)
    (h : file.database.Consistent) :
    ∃ file', ms.foldlM (applyMigration now) file = .ok file' ∧
      KeptConsistent file.database file'.database ∧ (ms.flatMap (·.2)).foldlM Statement.execSchema
        file.database.schema = .ok file'.database.schema := by
  induction ms generalizing file with
  | nil => exact ⟨file, rfl, ⟨.refl _, .refl _ _, h⟩, rfl⟩
  | cons migration rest ih =>
      obtain ⟨hadds, hrest⟩ := hadditive
      obtain ⟨s₁, rows₁, hbatch, hfold, hconsistent, hcarries, hincludes⟩ :=
        hadds.execBatch now h (fun t ht => by cases ht)
      rw [hfold] at hrest
      let file₁ : WalletFile := { file with database := ⟨s₁, rows₁⟩, userVersion := migration.1 }
      have hkept₁ : KeptConsistent file.database file₁.database :=
        ⟨hincludes, hcarries, hconsistent⟩
      obtain ⟨file', hrun, hkept, hschema⟩ := @ih file₁ hrest hconsistent
      refine ⟨file', ?_, hkept₁.trans hkept, ?_⟩
      · have hfirst : applyMigration now file migration = .ok file₁ := by
          unfold applyMigration
          rw [hbatch]
          rfl
        rw [List.foldlM_cons, hfirst]
        exact hrun
      · rw [List.flatMap_cons, List.foldlM_append, hfold]
        exact hschema

/-- Migration 27. -/
def outputsRebuild : Rebuild where
  table := "outputs"
  newTable := "outputs_new"
  d := outputsTable (required "wallet_output_json")
  columns := outputsColumns
  column := "wallet_output_json"
  indexes := [outputsOutputHashActive,
    { name := "idx_outputs_account_mined_height_active", table := "outputs"
      columns := ["account_id", "mined_in_block_height"] },
    { name := "idx_outputs_status_active", table := "outputs", columns := ["status"] },
    { name := "idx_outputs_account_status_active", table := "outputs"
      columns := ["account_id", "status"] },
    { name := "idx_outputs_account_confirmed_active", table := "outputs"
      columns := ["account_id"] },
    outputsTxIdActive]

theorem migration27_eq : migration27 = outputsRebuild.statements := rfl

/-- What the schemas of versions 26 and 27 have to have for migration 27. -/
def ReadyForRebuild (s s' : Schema) : Prop :=
  s.WellFormed ∧ outputsRebuild.Applies s (outputsTable (nullable "wallet_output_json")) ∧
    migration27.foldlM Statement.execSchema s = .ok s' ∧
    (∀ t ∈ s'.tables, t = (outputsRebuild.table, outputsRebuild.d) ∨ t ∈ s.tables) ∧
    (∀ i ∈ s'.indexes, i.unique = true → i ∈ s.indexes) ∧ s'.Includes s ∧
    Rebuild.referrers "outputs" s =
      [("inputs", "output_id"), ("balance_changes", "caused_by_output_id")]

/-- The migrations from the version to 26. -/
def migrationsTo26 (version : Nat) : List (Nat × List Statement) :=
  migrations.filter (fun migration => version < migration.1 ∧ migration.1 ≤ 26)

/-- The tables and the columns of the schema that the rebuild is about. -/
def HasReferrers (s : Schema) : Prop :=
  ∃ outputs ∈ s.tables, outputs.1 = "outputs" ∧ "wallet_output_json" ∈ outputs.2.columnNames ∧
    ∃ inputs ∈ s.tables, inputs.1 = "inputs" ∧
      (∃ c ∈ inputs.2.columns, c.name = "output_id" ∧ c.notNull = true) ∧
      ∃ changes ∈ s.tables, changes.1 = "balance_changes" ∧
        "caused_by_output_id" ∈ changes.2.columnNames

instance (s s' : Schema) : Decidable (s'.Includes s) := by
  unfold Schema.Includes
  infer_instance

instance (s s' : Schema) : Decidable (ReadyForRebuild s s') := by
  unfold ReadyForRebuild
  infer_instance

instance : DecidablePred HasReferrers := fun s => by
  unfold HasReferrers
  infer_instance

theorem upgrade_from27 : ∀ v ∈ [27, 28, 29], Holds (schemaAt v) (fun s =>
    AdditiveFrom s (pendingMigrations v)) := by decide +kernel

theorem upgrade_to26 : ∀ v ∈ [24, 25, 26], Holds (schemaAt v) (fun s =>
    AdditiveFrom s (migrationsTo26 v) ∧ HasReferrers s ∧
      ((migrationsTo26 v).flatMap (·.2)).foldlM Statement.execSchema s = schemaAt 26 ∧
      pendingMigrations v = migrationsTo26 v ++ (27, migration27) :: pendingMigrations 27) := by
  decide +kernel

theorem upgrade_at26 : Holds (schemaAt 26) (fun s => Holds (schemaAt 27) (fun s' =>
    ReadyForRebuild s s')) := by decide +kernel

/-- A database of the version whose constraints all hold. -/
structure WalletFile.AtVersion (file : WalletFile) (version : Nat) : Prop where
  userVersion : (attemptSqlxAdoption file).userVersion = version
  schema : schemaAt version = .ok file.database.schema
  consistent : file.database.Consistent

/-- Some input, or some balance change that an output has caused. -/
def RefersToOutputs (db : Database) : Prop :=
  (∃ r, r ∈ db.rows "inputs") ∨ ∃ r ∈ db.rows "balance_changes", r "caused_by_output_id" ≠ .null

section Upgrade

variable {file : WalletFile} {version : Nat}

theorem attemptSqlxAdoption_database (file : WalletFile) :
    (attemptSqlxAdoption file).database = file.database := by
  unfold attemptSqlxAdoption
  split <;> rfl

theorem connectAndMigrate_eq (now : Value)
    (hversion : (attemptSqlxAdoption file).userVersion = version) (hle : version ≤ latestVersion) :
    connectAndMigrate now file = ((pendingMigrations version).foldlM (applyMigration now)
      (attemptSqlxAdoption file)).mapError .sql := by
  unfold connectAndMigrate toLatest pendingMigrations
  rw [hversion, if_neg (Nat.not_lt.mpr hle)]

/-- From version 27 on the migrations only add. -/
theorem migrate_from27 (now : Value) (hv : version ∈ [27, 28, 29])
    (hschema : schemaAt version = .ok file.database.schema) (hdb : file.database.Consistent) :
    ∃ file', (pendingMigrations version).foldlM (applyMigration now) file = .ok file' ∧
      KeptConsistent file.database file'.database := by
  have hadditive := upgrade_from27 version hv
  rw [hschema] at hadditive
  obtain ⟨file', hrun, hkept, -⟩ := AdditiveFrom.applyMigrations hadditive now hdb
  exact ⟨file', hrun, hkept⟩

/-- Before it, the file is brought to version 26, where `outputs` is rebuilt. -/
theorem migrate_to26 (now : Value) (hv : version ∈ [24, 25, 26])
    (hschema : schemaAt version = .ok file.database.schema) (hdb : file.database.Consistent) :
    ∃ file', (migrationsTo26 version).foldlM (applyMigration now) file = .ok file' ∧
      KeptConsistent file.database file'.database ∧
      schemaAt 26 = .ok file'.database.schema ∧ HasReferrers file.database.schema ∧
      pendingMigrations version =
        migrationsTo26 version ++ (27, migration27) :: pendingMigrations 27 := by
  have hupgrade := upgrade_to26 version hv
  rw [hschema] at hupgrade
  obtain ⟨hadditive, hreferrers, hschema', hpending⟩ := hupgrade
  obtain ⟨file', hrun, hkept, hfold⟩ := AdditiveFrom.applyMigrations hadditive now hdb
  exact ⟨file', hrun, hkept, hschema'.symm.trans hfold, hreferrers, hpending⟩

/-- Rows that are carried over refer to outputs if the rows before do. -/
theorem refersToOutputs_carries {s : Schema} {rows rows' : String → List Row}
    (hdb : Database.Consistent ⟨s, rows⟩) (hreferrers : HasReferrers s)
    (hcarries : s.Carries rows rows') :
    (∃ c ∈ [("inputs", "output_id"), ("balance_changes", "caused_by_output_id")],
      ∃ r ∈ rows' c.1, r c.2 ≠ .null) ↔ RefersToOutputs ⟨s, rows⟩ := by
  obtain ⟨-, -, -, -, inputs, hinputs, hname, ⟨c, hc, hcname, hnotNull⟩, changes, hchanges, hname',
    hcolumn⟩ := hreferrers
  have hsame := hname ▸ hcarries inputs hinputs
  have hsame' := hname' ▸ hcarries changes hchanges
  have hid : "output_id" ∈ inputs.2.columnNames := hcname ▸ List.mem_map_of_mem hc
  constructor
  · rintro ⟨c, hc, r', hr', hnull⟩
    rcases List.mem_cons.mp hc with rfl | hc
    · obtain ⟨r, hr, -⟩ := hsame.exists_old hr'
      exact Or.inl ⟨r, hr⟩
    · obtain rfl := List.mem_singleton.mp hc
      obtain ⟨r, hr, heq⟩ := hsame'.exists_old hr'
      exact Or.inr ⟨r, hr, heq _ hcolumn ▸ hnull⟩
  · rintro (⟨r, hr⟩ | ⟨r, hr, hnull⟩)
    · obtain ⟨r', hr', heq⟩ := hsame.exists_new hr
      refine ⟨_, List.mem_cons_self, r', hr', ?_⟩
      rw [heq _ hid, ← hcname]
      exact hdb.filled inputs hinputs r (hname ▸ hr) c hc hnotNull
    · obtain ⟨r', hr', heq⟩ := hsame'.exists_new hr
      refine ⟨_, List.mem_cons_of_mem _ (List.mem_singleton_self _), r', hr', ?_⟩
      rw [heq _ hcolumn]
      exact hnull

/-- Migration 27 at version 26. -/
theorem applyMigration_27 (now : Value) (hschema : schemaAt 26 = .ok file.database.schema)
    (hdb : file.database.Consistent)
    (hjson : ∀ r ∈ file.database.rows "outputs", r "wallet_output_json" ≠ .null) :
    ((∃ c ∈ [("inputs", "output_id"), ("balance_changes", "caused_by_output_id")],
        ∃ r ∈ file.database.rows c.1, r c.2 ≠ .null) →
      applyMigration now file (27, migration27) = .error .foreignKeyFailed) ∧
    (¬(∃ c ∈ [("inputs", "output_id"), ("balance_changes", "caused_by_output_id")],
        ∃ r ∈ file.database.rows c.1, r c.2 ≠ .null) →
      ∃ file', applyMigration now file (27, migration27) = .ok file' ∧
        schemaAt 27 = .ok file'.database.schema ∧
        KeptConsistent file.database file'.database) := by
  have hready := upgrade_at26
  rw [hschema] at hready
  cases hschema' : schemaAt 27 with
  | error e => exact (show False by rw [hschema'] at hready; exact hready).elim
  | ok s' =>
      rw [hschema'] at hready
      obtain ⟨hwf, happlies, hfold, htables, hindexes, hincludes, hreferrers⟩ := hready
      rw [migration27_eq] at hfold
      have hbatch := happlies.execBatch hwf hdb hjson now hfold
      rw [← migration27_eq] at hbatch
      have hreferenced := Rebuild.referenced_iff (x := outputsRebuild) hdb
      rw [show outputsRebuild.table = "outputs" from rfl, hreferrers] at hreferenced
      unfold applyMigration
      simp only [hbatch]
      constructor
      · intro href
        rw [if_pos (hreferenced.mpr href)]
        rfl
      · intro hnot
        rw [if_neg (fun href => hnot (hreferenced.mp href))]
        exact ⟨_, rfl, rfl, hincludes, happlies.carries hwf,
          happlies.consistent_rebuilt hwf hdb hjson now htables hindexes⟩

/-- An upgrade from the version keeps everything if `outputs` has been rebuilt before, or no row
    refers to it. -/
theorem connectAndMigrate_keeps_iff (now : Value) (file : WalletFile) (version : Nat)
    (hle : 24 ≤ version) (hlt : version < latestVersion) (hversion : file.AtVersion version)
    (hjson : ∀ r ∈ file.database.rows "outputs", r "wallet_output_json" ≠ .null) :
    (∃ file', connectAndMigrate now file = .ok file' ∧
        KeptBy file.database file'.database) ↔
      27 ≤ version ∨ ¬RefersToOutputs file.database := by
  have hsame := attemptSqlxAdoption_database file
  have hschema := hversion.schema
  have hdb := hversion.consistent
  rw [connectAndMigrate_eq now hversion.userVersion (Nat.le_of_lt hlt)]
  simp only [mapError_ok]
  generalize attemptSqlxAdoption file = adopted at hsame
  rw [← hsame] at hschema hdb hjson ⊢
  by_cases h27 : 27 ≤ version
  · have hv : version ∈ [27, 28, 29] := by
      have : version < 30 := hlt
      simp only [List.mem_cons, List.not_mem_nil]
      omega
    obtain ⟨file', hrun, hkept⟩ := migrate_from27 now hv hschema hdb
    exact ⟨fun _ => Or.inl h27, fun _ => ⟨file', hrun, hkept.keptBy⟩⟩
  · have hv : version ∈ [24, 25, 26] := by
      simp only [List.mem_cons, List.not_mem_nil]
      omega
    obtain ⟨file₁, hrun₁, hkept₁, hschema₁, hreferrers, hpending⟩ := migrate_to26 now hv hschema hdb
    rw [hpending]
    simp only [List.foldlM_append, List.foldlM_cons, hrun₁]
    have hjson₁ : ∀ r ∈ file₁.database.rows "outputs", r "wallet_output_json" ≠ .null := by
      obtain ⟨outputs, houtputs, hname, hcolumn, -⟩ := hreferrers
      intro r' hr'
      obtain ⟨r, hr, heq⟩ := (hkept₁.carries outputs houtputs).exists_old (hname ▸ hr')
      rw [heq _ hcolumn]
      exact hjson r (hname ▸ hr)
    obtain ⟨hfails, hkeeps⟩ := applyMigration_27 now hschema₁ hkept₁.consistent hjson₁
    rw [refersToOutputs_carries hdb hreferrers hkept₁.carries] at hfails hkeeps
    constructor
    · rintro ⟨file', hrun, -⟩
      refine Or.inr (fun href => ?_)
      have hfail := hfails href
      simp only [bind, Except.bind, hfail] at hrun
      cases hrun
    · intro hor
      obtain ⟨file₂, hrun₂, hschema₂, hkept₂⟩ := hkeeps (hor.resolve_left h27)
      obtain ⟨file', hrun', hkept'⟩ :=
        migrate_from27 now (by decide) hschema₂ hkept₂.consistent
      refine ⟨file', ?_, ((hkept₁.trans hkept₂).trans hkept').keptBy⟩
      simp only [bind, Except.bind, hrun₂]
      exact hrun'

end Upgrade

/-- A file with these rows at the version. -/
def fileAt (version : Nat) (rows : List (String × List Row)) : WalletFile where
  database := ⟨(schemaAt version).toOption.getD {}, fun t => (rows.lookup t).getD []⟩
  userVersion := version
  sqlxMigrations := none

def storedAccount : Row := rowOf [("id", .integer 1), ("friendly_name", .text "default"),
  ("fingerprint", .blob [1]), ("encrypted_wallet", .blob [2]), ("cipher_nonce", .blob [3]),
  ("salt", .blob [4]), ("birthday", .integer 0), ("created_at", .text "2026-01-01 00:00:00")]

def storedOutput : Row := rowOf [("id", .integer 5), ("account_id", .integer 1),
  ("tx_id", .integer 77), ("output_hash", .blob [5]), ("mined_in_block_hash", .blob [6]),
  ("mined_in_block_height", .integer 10), ("value", .integer 100),
  ("created_at", .text "2026-01-01 00:00:00"), ("wallet_output_json", .text "\x7b\x7d"),
  ("mined_timestamp", .text "2026-01-01 00:00:00"), ("status", .text "UNSPENT")]

/-- The credit that the output has caused. -/
def storedBalanceChange : Row := rowOf [("id", .integer 1), ("account_id", .integer 1),
  ("caused_by_output_id", .integer 5), ("description", .text "Output found in blockchain scan"),
  ("balance_debit", .integer 0), ("balance_credit", .integer 100),
  ("effective_date", .text "2026-01-01 00:00:00"), ("effective_height", .integer 10),
  ("created_at", .text "2026-01-01 00:00:00"), ("is_reversal", .integer 0),
  ("is_reversed", .integer 0)]

def receivedRows : List (String × List Row) := [("accounts", [storedAccount]),
  ("outputs", [storedOutput]), ("balance_changes", [storedBalanceChange])]

/-- A received output is kept by the upgrade from version 27. -/
theorem received_kept_from27 :
    ∃ file', connectAndMigrate .null (fileAt 27 receivedRows) = .ok file' ∧
      KeptBy (fileAt 27 receivedRows).database file'.database :=
  (connectAndMigrate_keeps_iff .null (fileAt 27 receivedRows) 27 (by decide) (by decide)
    ⟨rfl, by decide +kernel, by decide +kernel⟩ (by decide +kernel)).mpr (Or.inl (by decide))

/-- The upgrade from version 26 fails for it. -/
theorem received_fails_from26 :
    ¬∀ (now : Value) (file : WalletFile) (version : Nat), 24 ≤ version → version < latestVersion →
      file.AtVersion version →
      (∀ r ∈ file.database.rows "outputs", r "wallet_output_json" ≠ .null) →
      ∃ file', connectAndMigrate now file = .ok file' ∧
        KeptBy file.database file'.database := by
  intro hall
  obtain ⟨file', hrun, -⟩ := hall .null (fileAt 26 receivedRows) 26 (by decide) (by decide)
    ⟨rfl, by decide +kernel, by decide +kernel⟩ (by decide +kernel)
  have hfails : (connectAndMigrate .null (fileAt 26 receivedRows)).isOk = false := by
    decide +kernel
  rw [hrun] at hfails
  cases hfails

end MinotariWallet
