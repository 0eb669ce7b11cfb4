import MinotariWallet.Ledger.Machine

set_option autoImplicit false

/-! # Spend status and inputs

An undeleted output should be `SPENT` exactly when an undeleted input spends it. Scanning and locking
keep that; `rollback_from_height` deletes the inputs above the fork but leaves the status of the
outputs they spent, so it keeps it exactly when no such output survives below the fork. -/

namespace MinotariWallet

open Sql Exec

/-- Every undeleted output is `SPENT` if and only if an undeleted input refers to it. -/
def SpendStatusBacked (outputs : AutoTable OutputRow) (inputs : AutoTable InputRow) : Prop :=
  ∀ o ∈ outputs.rows, o.active = true →
    (o.status = .spent ↔ ∃ i ∈ inputs.rows, i.active = true ∧ i.outputId = o.id)

/-- Undeleted inputs refer to outputs of their own account, no two to the same one. -/
structure SpendRefs (outputs : AutoTable OutputRow) (inputs : AutoTable InputRow) : Prop where
  refs : ∀ i ∈ inputs.rows, i.active = true →
    ∃ o ∈ outputs.rows, o.id = i.outputId ∧ o.accountId = i.accountId
  unique : ∀ i ∈ inputs.rows, ∀ j ∈ inputs.rows, i.active = true → j.active = true →
    i.outputId = j.outputId → i = j

/-- An undeleted output below `height` is spent by an undeleted input at or above it. -/
def SpendAcross (accountId : AccountId) (height : Nat) (outputs : AutoTable OutputRow)
    (inputs : AutoTable InputRow) : Prop :=
  ∃ o ∈ outputs.rows, o.active = true ∧ o.accountId = accountId ∧
    o.minedInBlockHeight < asI64 height ∧
    ∃ i ∈ inputs.rows, i.active = true ∧ i.outputId = o.id ∧ asI64 height ≤ i.minedInBlockHeight

instance (outputs : AutoTable OutputRow) (inputs : AutoTable InputRow) :
    Decidable (SpendStatusBacked outputs inputs) := by
  unfold SpendStatusBacked; infer_instance

instance (accountId : AccountId) (height : Nat) (outputs : AutoTable OutputRow)
    (inputs : AutoTable InputRow) : Decidable (SpendAcross accountId height outputs inputs) := by
  unfold SpendAcross; infer_instance

/-- The condition on a call: a rollback removes no input whose output survives it. -/
def RollbackKeepsSpends (db : Db) : LedgerAction → Prop
  | .rollbackFromHeight accountId height _ _ => ¬SpendAcross accountId height db.outputs db.inputs
  | _ => True

instance (db : Db) : DecidablePred (RollbackKeepsSpends db)
  | .rollbackFromHeight _ _ _ _ => inferInstanceAs (Decidable (¬_))
  | .processBlock _ _ _ _ => .isTrue trivial
  | .lockOutput _ _ _ => .isTrue trivial
  | .unlockOutputsForRequest _ => .isTrue trivial

/-! ## Statements on outputs and inputs -/

section Statements

variable {outputs : AutoTable OutputRow} {inputs : AutoTable InputRow}

theorem SpendRefs.insertOutput (h : SpendRefs outputs inputs) {mk : Id → OutputRow}
    (hmk : ∀ k, key (mk k) = k) : SpendRefs (outputs.insert mk hmk) inputs where
  refs := fun i hi hactive => by
    obtain ⟨o, ho, hid⟩ := h.refs i hi hactive
    exact ⟨o, (AutoTable.mem_insert hmk).mpr (Or.inl ho), hid⟩
  unique := h.unique

/-- A new output has a key that no input can refer to. -/
theorem SpendStatusBacked.insertOutput (h : SpendStatusBacked outputs inputs)
    (hrefs : SpendRefs outputs inputs) {mk : Id → OutputRow}
    (hstatus : ∀ k, (mk k).status ≠ .spent) (hmk : ∀ k, key (mk k) = k) :
    SpendStatusBacked (outputs.insert mk hmk) inputs := by
  intro o ho hactive
  rcases (AutoTable.mem_insert hmk).mp ho with hold | rfl
  · exact h o hold hactive
  · refine ⟨fun hs => absurd hs (hstatus _), fun hex => ?_⟩
    obtain ⟨i, hi, hiactive, hid⟩ := hex
    obtain ⟨o', ho', hid', -⟩ := hrefs.refs i hi hiactive
    have hkey : (mk (outputs.seq + 1)).id = outputs.seq + 1 := hmk _
    exact absurd (hid'.trans (hid.trans hkey)) (outputs.fresh ho')

theorem SpendRefs.updateOutputs (h : SpendRefs outputs inputs) {p : OutputRow → Bool}
    {f : OutputRow → OutputRow} (hacc : ∀ o, (f o).accountId = o.accountId)
    (hf : ∀ o, key (f o) = key o) :
    SpendRefs (outputs.updateWhere p f hf) inputs where
  refs := fun i hi hactive => by
    obtain ⟨o, ho, hid, hoacc⟩ := h.refs i hi hactive
    refine ⟨if p o then f o else o, (AutoTable.mem_updateWhere hf).mpr ⟨o, ho, rfl⟩, ?_⟩
    by_cases hp : p o
    · have hkey : (f o).id = o.id := hf o
      simp only [hp, if_true]
      exact ⟨hkey.trans hid, (hacc o).trans hoacc⟩
    · simp only [hp]
      exact ⟨hid, hoacc⟩
  unique := h.unique

/-- An update that turns no output into or out of `SPENT`. -/
theorem SpendStatusBacked.updateOutputs (h : SpendStatusBacked outputs inputs)
    {p : OutputRow → Bool} {f : OutputRow → OutputRow}
    (hactive : ∀ o, (f o).active = true → o.active = true)
    (hstatus : ∀ o, p o = true → ((f o).status = .spent ↔ o.status = .spent))
    (hf : ∀ o, key (f o) = key o) :
    SpendStatusBacked (outputs.updateWhere p f hf) inputs := by
  intro o ho ho'
  obtain ⟨o₀, ho₀, rfl⟩ := (AutoTable.mem_updateWhere hf).mp ho
  by_cases hp : p o₀
  · have hkey : (f o₀).id = o₀.id := hf o₀
    simp only [hp, if_true] at ho' ⊢
    rw [hstatus o₀ hp, hkey]
    exact h o₀ ho₀ (hactive o₀ ho')
  · simp only [hp] at ho' ⊢
    exact h o₀ ho₀ ho'

theorem SpendRefs.insertInput (h : SpendRefs outputs inputs) {mk : Id → InputRow} {o : OutputRow}
    (ho : o ∈ outputs.rows) (hid : ∀ k, (mk k).outputId = o.id)
    (hacc : ∀ k, (mk k).accountId = o.accountId)
    (hnone : ∀ i ∈ inputs.rows, i.active = true → i.outputId ≠ o.id)
    (hmk : ∀ k, key (mk k) = k) :
    SpendRefs outputs (inputs.insert mk hmk) where
  refs := fun i hi hactive => by
    rcases (AutoTable.mem_insert hmk).mp hi with hold | rfl
    · exact h.refs i hold hactive
    · exact ⟨o, ho, (hid _).symm, (hacc _).symm⟩
  unique := fun i hi j hj hiactive hjactive heq => by
    rcases (AutoTable.mem_insert hmk).mp hi with hi | rfl <;>
      rcases (AutoTable.mem_insert _).mp hj with hj | rfl
    · exact h.unique i hi j hj hiactive hjactive heq
    · exact absurd (heq.trans (hid _)) (hnone i hi hiactive)
    · exact absurd (heq.symm.trans (hid _)) (hnone j hj hjactive)
    · rfl

/-- An output set to `SPENT` once an undeleted input refers to it. -/
theorem SpendStatusBacked.spend {inputs' : AutoTable InputRow} {outputId : Id}
    (h : SpendStatusBacked outputs inputs)
    (hspent : ∃ i ∈ inputs'.rows, i.active = true ∧ i.outputId = outputId)
    (hother : ∀ k, k ≠ outputId → ((∃ i ∈ inputs'.rows, i.active = true ∧ i.outputId = k) ↔
      ∃ i ∈ inputs.rows, i.active = true ∧ i.outputId = k)) :
    SpendStatusBacked (outputs.updateWhere (fun o => o.id == outputId)
      (fun o => { o with status := .spent })) inputs' := by
  intro o ho hactive
  obtain ⟨o₀, ho₀, rfl⟩ := (AutoTable.mem_updateWhere _).mp ho
  by_cases hid : o₀.id = outputId
  · simp only [hid, beq_self_eq_true, if_true, true_iff]
    exact hspent
  · have hne : (o₀.id == outputId) = false := by simpa using hid
    simp only [hne] at hactive ⊢
    exact (h o₀ ho₀ hactive).trans (hother o₀.id hid).symm

theorem SpendRefs.deleteInputs (h : SpendRefs outputs inputs) {p : InputRow → Bool}
    {f : InputRow → InputRow} (hdel : ∀ i, (f i).active = false)
    (hf : ∀ i, key (f i) = key i) : SpendRefs outputs (inputs.updateWhere p f hf) := by
  have hsurvive : ∀ i ∈ (inputs.updateWhere p f hf).rows, i.active = true → i ∈ inputs.rows := by
    intro i hi hactive
    obtain ⟨i₀, hi₀, rfl⟩ := (AutoTable.mem_updateWhere hf).mp hi
    by_cases hp : p i₀
    · simp [hp, hdel] at hactive
    · simpa [hp] using hi₀
  exact ⟨fun i hi ha => h.refs i (hsurvive i hi ha) ha,
    fun i hi j hj ha ha' => h.unique i (hsurvive i hi ha) j (hsurvive j hj ha') ha ha'⟩

end Statements

/-! ## Blocks -/

/-- The invariant of scanning: the references, and `P` as well when the status is looked at. -/
def SpendInv (L : Ledger) : Prop :=
  SpendRefs L.outputs L.inputs ∧ SpendStatusBacked L.outputs L.inputs

theorem insertOrIgnoreInput_spendRefs {db : Db} {accountId : AccountId} {info : DbWalletOutput}
    {hash : FixedHash} {height : Nat} {blockHash : FixedHash} {timestamp : Timestamp} {inputId : Id}
    (h : SpendRefs db.outputs db.inputs)
    (hinfo : db.getOutputInfoByHashForAccount accountId hash = some info)
    (hid : (db.insertOrIgnoreInput accountId info.id height blockHash timestamp).getActiveInputId
      info.id = .ok inputId) :
    SpendRefs db.outputs
      (db.insertOrIgnoreInput accountId info.id height blockHash timestamp).inputs := by
  obtain ⟨o, ho, -, hacc, -, rfl⟩ := getOutputInfoByHashForAccount_some hinfo
  rcases getActiveInputId_insertOrIgnoreInput hid with ⟨-, heq⟩ | ⟨hnone, -, heq⟩
  · rw [heq]; exact h
  · rw [heq]; exact h.insertInput ho (fun _ => rfl) (fun _ => hacc.symm) hnone (fun _ => rfl)

/-- After `insert_input` an undeleted input refers to the output, and no other output gained one. -/
theorem insertOrIgnoreInput_refers {db : Db} {accountId : AccountId} {outputId : Id} {height : Nat}
    {blockHash : FixedHash} {timestamp : Timestamp} {inputId : Id}
    (hid : (db.insertOrIgnoreInput accountId outputId height blockHash timestamp).getActiveInputId
      outputId = .ok inputId) (k : Id) :
    (∃ i ∈ (db.insertOrIgnoreInput accountId outputId height blockHash timestamp).inputs.rows,
      i.active = true ∧ i.outputId = k) ↔
      k = outputId ∨ ∃ i ∈ db.inputs.rows, i.active = true ∧ i.outputId = k := by
  rcases getActiveInputId_insertOrIgnoreInput hid with ⟨hex, heq⟩ | ⟨-, -, heq⟩
  · rw [heq]
    refine ⟨Or.inr, ?_⟩
    rintro (rfl | h)
    · exact hex
    · exact h
  · rw [heq]
    constructor
    · rintro ⟨i, hi, hactive, rfl⟩
      rcases (AutoTable.mem_insert (fun _ => rfl)).mp hi with hold | rfl
      · exact Or.inr ⟨i, hold, hactive, rfl⟩
      · exact Or.inl rfl
    · rintro (rfl | ⟨i, hi, h⟩)
      · exact ⟨_, (AutoTable.mem_insert (fun _ => rfl)).mpr (Or.inr rfl), rfl, rfl⟩
      · exact ⟨i, (AutoTable.mem_insert (fun _ => rfl)).mpr (Or.inl hi), h⟩

theorem spendInv_blockRule (env : ScanEnv) (bp : BlockProcessor) (now : Timestamp)
    (block : BlockScanResult) (accountId : AccountId) :
    BlockRule env bp now block accountId (fun _ => SpendInv) (fun _ => SpendInv) SpendInv where
  skip := fun _ _ _ _ h => h
  credit := fun w rest key memo payref id db db' _ hins h => by
    obtain ⟨timestamp, -, -, -, rfl⟩ := insertOutput_ok hins
    exact ⟨h.1.insertOutput (fun _ => rfl),
      h.2.insertOutput h.1 (fun _ => by simp [newOutputRow]) (fun _ => rfl)⟩
  outputsDone := fun _ h => h
  ignore := fun _ _ _ _ h => h
  debit := fun hash rest info timestamp inputId db hinfo hid h => by
    obtain ⟨hrefs₀, hbacked₀⟩ : SpendRefs db.outputs db.inputs ∧
      SpendStatusBacked db.outputs db.inputs := h
    have hrefs := insertOrIgnoreInput_spendRefs hrefs₀ hinfo hid
    have hrefers := insertOrIgnoreInput_refers hid
    have hbacked := hbacked₀.spend ((hrefers info.id).mpr (Or.inl rfl))
      (fun k hk => (hrefers k).trans (or_iff_right hk))
    rw [← outputs_insertOrIgnoreInput db accountId info.id block.height block.blockHash
      timestamp] at hrefs hbacked
    exact ⟨hrefs.updateOutputs (by intro _; rfl) (by intro _; rfl), hbacked⟩
  record := fun db h => by
    unfold Db.insertScannedTipBlock
    split <;> exact h
  confirm := fun db hash h =>
    ⟨h.1.updateOutputs (by intro _; rfl) (by intro _; rfl),
      h.2.updateOutputs (by intro _ h; exact h) (by intro _ _; rfl) (by intro _; rfl)⟩

/-! ## Rollbacks -/

/-- A rollback seen from outputs and inputs alone: `A` until the inputs are deleted, `B` until the
    outputs are, then `C`. -/
def spendStages (A B C : AutoTable OutputRow → AutoTable InputRow → Prop) :
    RollbackStage → Ledger → Prop
  | .start, L | .cancelled, L | .inputs _, L => A L.outputs L.inputs
  | .inputsDeleted, L | .outputs _, L => B L.outputs L.inputs
  | .outputsDeleted, L | .tipsDeleted, L | .done, L => C L.outputs L.inputs

theorem spendStages_rollbackRule {A B C : AutoTable OutputRow → AutoTable InputRow → Prop}
    {accountId : AccountId} {height : Nat} {now : Timestamp}
    (hinputs : ∀ db : Db, A db.outputs db.inputs →
      B db.outputs (db.setInputsDeleted accountId height now).inputs)
    (houtputs : ∀ db : Db, B db.outputs db.inputs →
      C (db.setOutputsDeleted accountId height now).outputs db.inputs) :
    RollbackRule accountId height now (spendStages A B C) where
  cancel := fun _ h => h
  inputs := fun _ h => h
  reverseInput := fun db row rest h => by
    rw [reverseBalanceChange_frame]
    exact h
  deleteInputs := fun db h => hinputs db h
  outputs := fun _ h => h
  reverseOutput := fun db row rest h => by
    rw [reverseBalanceChange_frame]
    exact h
  deleteOutputs := fun db h => houtputs db h
  deleteTips := fun _ h => h
  reset := fun _ h => h

/-- The references survive every rollback. -/
theorem spendRefs_rollback (accountId : AccountId) (height : Nat)
    (webhookConfig : Option WebhookTriggerConfig) (now : Timestamp) :
    Ensures (fun db => SpendRefs db.ledger.outputs db.ledger.inputs)
      (rollbackFromHeight accountId height webhookConfig now)
      (fun _ db => SpendRefs db.ledger.outputs db.ledger.inputs) :=
  rollbackFromHeight_ensures (S := spendStages SpendRefs SpendRefs SpendRefs)
    (spendStages_rollbackRule
      (fun _ h => h.deleteInputs (by intro _; rfl) (by intro _; rfl))
      (fun _ h => h.updateOutputs (by intro _; rfl) (by intro _; rfl))) webhookConfig

/-- Between the two deletions of a rollback, the outputs that survive it are backed. -/
def SurvivorsBacked (accountId : AccountId) (height : Nat) (outputs : AutoTable OutputRow)
    (inputs : AutoTable InputRow) : Prop :=
  ∀ o ∈ outputs.rows, o.survives accountId height →
    (o.status = .spent ↔ ∃ i ∈ inputs.rows, i.active = true ∧ i.outputId = o.id)

theorem spendStatusBacked_rollback (accountId : AccountId) (height : Nat)
    (webhookConfig : Option WebhookTriggerConfig) (now : Timestamp) :
    Ensures
      (fun db => SpendInv db.ledger ∧
        ¬SpendAcross accountId height db.ledger.outputs db.ledger.inputs)
      (rollbackFromHeight accountId height webhookConfig now)
      (fun _ db => SpendStatusBacked db.ledger.outputs db.ledger.inputs) := by
  refine (rollbackFromHeight_ensures (S := spendStages
    (fun outputs inputs => (SpendRefs outputs inputs ∧ SpendStatusBacked outputs inputs) ∧
      ¬SpendAcross accountId height outputs inputs)
    (SurvivorsBacked accountId height) SpendStatusBacked)
    (spendStages_rollbackRule ?_ ?_) webhookConfig)
  · intro db h o ho hsurvives
    obtain ⟨⟨hrefs, hbacked⟩, hacross⟩ := h
    rw [hbacked o ho hsurvives.1]
    constructor
    · rintro ⟨i, hi, hactive, hid⟩
      refine ⟨i, (mem_setInputsDeleted_active hactive).mpr ⟨hi, fun hand => ?_⟩, hactive, hid⟩
      -- the input would be deleted, so its output is below the fork: the spend lies across it
      obtain ⟨o', ho', hid', hacc⟩ := hrefs.refs i hi hactive
      obtain rfl : o' = o := db.outputs.eq_of_key_eq ho' ho (hid'.trans hid)
      refine hacross ⟨o', ho, hsurvives.1, hacc.trans hand.1, ?_, i, hi, hactive, hid, hand.2⟩
      exact lt_of_not_ge (fun hge => hsurvives.2 ⟨hacc.trans hand.1, hge⟩)
    · rintro ⟨i, hi, hactive, hid⟩
      exact ⟨i, ((mem_setInputsDeleted_active hactive).mp hi).1, hactive, hid⟩
  · intro db h o ho hactive
    obtain ⟨ho', hsurvives⟩ := (mem_setOutputsDeleted_active hactive).mp ho
    exact h o ho' hsurvives

/-- A rollback across a spend leaves the output `SPENT` without an input. -/
theorem spendAcross_rollback (accountId : AccountId) (height : Nat)
    (webhookConfig : Option WebhookTriggerConfig) (now : Timestamp) :
    Ensures
      (fun db => SpendInv db.ledger ∧
        SpendAcross accountId height db.ledger.outputs db.ledger.inputs)
      (rollbackFromHeight accountId height webhookConfig now)
      (fun _ db => ¬SpendStatusBacked db.ledger.outputs db.ledger.inputs) := by
  let orphaned : AutoTable OutputRow → AutoTable InputRow → Prop := fun outputs inputs =>
    ∃ o ∈ outputs.rows, o.survives accountId height ∧ o.status = .spent ∧
      ∀ i ∈ inputs.rows, i.active = true → i.outputId ≠ o.id
  refine (rollbackFromHeight_ensures (S := spendStages
    (fun outputs inputs => (SpendRefs outputs inputs ∧ SpendStatusBacked outputs inputs) ∧
      SpendAcross accountId height outputs inputs)
    orphaned orphaned) (spendStages_rollbackRule ?_ ?_) webhookConfig).post ?_
  · intro db h
    obtain ⟨⟨hrefs, hbacked⟩, o, ho, hactive, hacc, hlow, i, hi, hiactive, hid, hhigh⟩ := h
    refine ⟨o, ho, ⟨hactive, fun hand => absurd hand.2 (not_le_of_gt hlow)⟩,
      (hbacked o ho hactive).mpr ⟨i, hi, hiactive, hid⟩, fun j hj hjactive hjid => ?_⟩
    -- the only undeleted input of the output is the one the rollback deleted
    obtain ⟨hj', hnot⟩ := (mem_setInputsDeleted_active hjactive).mp hj
    obtain rfl : j = i := hrefs.unique j hj' i hi hjactive hiactive (hjid.trans hid.symm)
    obtain ⟨o', ho', hid', hacc'⟩ := hrefs.refs j hi hiactive
    obtain rfl : o' = o := db.outputs.eq_of_key_eq ho' ho (hid'.trans hid)
    exact hnot ⟨hacc'.symm.trans hacc, hhigh⟩
  · rintro db ⟨o, ho, hsurvives, hspent, hnone⟩
    exact ⟨o, (mem_setOutputsDeleted_active hsurvives.1).mpr ⟨ho, hsurvives⟩, hsurvives, hspent,
      hnone⟩
  · rintro _ db ⟨o, ho, hsurvives, hspent, hnone⟩ hbacked
    obtain ⟨i, hi, hactive, hid⟩ := (hbacked o ho hsurvives.1).mp hspent
    exact hnone i hi hactive hid

/-! ## Runs -/

theorem spendInv_lock (db : Db) (outputId : Id) (req : RequestId) (now : Timestamp)
    (h : SpendInv db.ledger) : SpendInv (db.lockOutput outputId req now).ledger := by
  refine ⟨h.1.updateOutputs (by intro _; rfl) (by intro _; rfl),
    h.2.updateOutputs (by intro _ h; exact h) ?_ (by intro _; rfl)⟩
  intro o hp
  simp only [Bool.and_eq_true, beq_iff_eq] at hp
  simp [hp.2]

theorem spendInv_unlock (db : Db) (req : RequestId) (h : SpendInv db.ledger) :
    SpendInv (db.unlockOutputsForRequest req).ledger := by
  refine ⟨h.1.updateOutputs (by intro _; rfl) (by intro _; rfl),
    h.2.updateOutputs (by intro _ h; exact h) ?_ (by intro _; rfl)⟩
  intro o hp
  simp only [Bool.and_eq_true, beq_iff_eq] at hp
  simp [hp.2]

/-- One call keeps the invariant when it is not a rollback across a spend. -/
theorem spendInv_step {env : ScanEnv} {db db' : Db} {a : LedgerAction} (h : SpendInv db.ledger)
    (hgood : RollbackKeepsSpends db a) (hstep : ledgerStep env db a = some db') :
    SpendInv db'.ledger := by
  cases a with
  | processBlock bp block accountId now =>
      exact of_runOk_map (P := SpendInv) (Q := SpendInv)
        (processBlock_ensures (spendInv_blockRule env bp now block accountId)) h hstep
  | lockOutput outputId req now => cases hstep; exact spendInv_lock db outputId req now h
  | unlockOutputsForRequest req => cases hstep; exact spendInv_unlock db req h
  | rollbackFromHeight accountId height webhookConfig now =>
      refine ⟨of_runOk_map (P := fun L => SpendRefs L.outputs L.inputs)
          (Q := fun L => SpendRefs L.outputs L.inputs)
          (spendRefs_rollback accountId height webhookConfig now) h.1 hstep,
        of_runOk_map
          (P := fun L => SpendInv L ∧ ¬SpendAcross accountId height L.outputs L.inputs)
          (Q := fun L => SpendStatusBacked L.outputs L.inputs)
          (spendStatusBacked_rollback accountId height webhookConfig now) ⟨h, hgood⟩ hstep⟩

/-- The references are kept by every call from a state in which the statuses are right. -/
theorem spendRefs_step {env : ScanEnv} {db db' : Db} {a : LedgerAction} (h : SpendInv db.ledger)
    (hstep : ledgerStep env db a = some db') : SpendRefs db'.outputs db'.inputs := by
  cases a with
  | processBlock bp block accountId now =>
      exact (spendInv_step (a := .processBlock bp block accountId now) h trivial hstep).1
  | lockOutput outputId req now =>
      exact (spendInv_step (a := .lockOutput outputId req now) h trivial hstep).1
  | unlockOutputsForRequest req =>
      exact (spendInv_step (a := .unlockOutputsForRequest req) h trivial hstep).1
  | rollbackFromHeight accountId height webhookConfig now =>
      exact of_runOk_map (P := fun L => SpendRefs L.outputs L.inputs)
        (Q := fun L => SpendRefs L.outputs L.inputs)
        (spendRefs_rollback accountId height webhookConfig now) h.1 hstep

/-- A call after which the statuses are still right was no rollback across a spend. -/
theorem rollbackKeepsSpends_of_step {env : ScanEnv} {db db' : Db} {a : LedgerAction}
    (h : SpendInv db.ledger) (hstep : ledgerStep env db a = some db')
    (hbacked : SpendStatusBacked db'.outputs db'.inputs) : RollbackKeepsSpends db a := by
  cases a with
  | rollbackFromHeight accountId height webhookConfig now =>
      intro hacross
      exact of_runOk_map
        (P := fun L => SpendInv L ∧ SpendAcross accountId height L.outputs L.inputs)
        (Q := fun L => ¬SpendStatusBacked L.outputs L.inputs)
        (spendAcross_rollback accountId height webhookConfig now) ⟨h, hacross⟩ hstep hbacked
  | processBlock bp block accountId now => trivial
  | lockOutput outputId req now => trivial
  | unlockOutputsForRequest req => trivial

theorem spendInv_empty : SpendInv Db.empty.ledger := by
  refine ⟨⟨?_, ?_⟩, ?_⟩ <;> intro x hx <;> cases hx

/-- In a run of scan, lock and rollback calls from the empty database, the spend statuses are backed
    by inputs in every state reached if and only if no rollback of the run lies across a spend. -/
theorem spendStatus_always_iff (env : ScanEnv) (as : List LedgerAction) :
    Transition.Always (ledgerStep env) (fun db => SpendStatusBacked db.outputs db.inputs)
        Db.empty as ↔
      Transition.Along (ledgerStep env) RollbackKeepsSpends Db.empty as := by
  constructor
  · exact Transition.along_of_always (I := fun db => SpendRefs db.outputs db.inputs)
      (fun _ _ _ hrefs hbacked _ hstep => spendRefs_step ⟨hrefs, hbacked⟩ hstep)
      (fun _ _ _ hrefs hbacked _ hstep hbacked' =>
        rollbackKeepsSpends_of_step ⟨hrefs, hbacked⟩ hstep hbacked')
      spendInv_empty.1 (Transition.along_of_forall _ (fun _ _ => trivial))
  · exact Transition.always_of_along (I := fun db => SpendInv db.ledger)
      (fun _ _ _ h hgood hstep => spendInv_step h hgood hstep) (fun _ h => h.2) spendInv_empty

/-- Account 1 receives an output at height 1 and spends it at height 2; then the chain is rolled
    back to height 2. -/
def spendRolledBack : List LedgerAction :=
  let bp := BlockProcessor.withEventSender [(1, 7)] 3
  [.processBlock bp ⟨1, 101, [(500, { outputHash := 500, value := 10 }, 0)], [], 1000⟩ 1 1000,
    .processBlock bp ⟨2, 102, [], [500], 1120⟩ 1 1120,
    .rollbackFromHeight 1 2 none 1200]

/-- After it the output is still `SPENT`, no undeleted input spends it, and it is not offered for
    spending. -/
theorem spendRolledBack_stranded :
    ¬Transition.Always (ledgerStep plainEnv)
        (fun db => SpendStatusBacked db.outputs db.inputs) Db.empty spendRolledBack ∧
      ∃ db, Transition.run (ledgerStep plainEnv) Db.empty spendRolledBack = some db ∧
        (∃ o ∈ db.outputs.rows, o.active = true ∧ o.status = .spent ∧ o.minedInBlockHeight = 1) ∧
        (∀ i ∈ db.inputs.rows, i.active = false) ∧ db.fetchUnspentOutputs 1 1000 = [] := by
  refine ⟨by decide +kernel, ?_⟩
  obtain ⟨db, hrun, hq⟩ := Transition.exists_run_of_any (f := ledgerStep plainEnv)
    (s := Db.empty) (l := spendRolledBack)
    (q := fun db => decide ((∃ o ∈ db.outputs.rows,
        o.active = true ∧ o.status = .spent ∧ o.minedInBlockHeight = 1) ∧
      (∀ i ∈ db.inputs.rows, i.active = false) ∧ db.fetchUnspentOutputs 1 1000 = []))
    (by decide +kernel)
  exact ⟨db, hrun, of_decide_eq_true hq⟩

end MinotariWallet
