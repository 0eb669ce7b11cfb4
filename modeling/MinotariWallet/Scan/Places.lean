import MinotariWallet.Scan.ForkPoint
import Mathlib.Data.Set.Insert

set_option autoImplicit false

/-! # Where the ledger has rows

A row of `outputs`, `inputs` or `scanned_tip_blocks` says of an account that it has something in a
block. What scanning and rollbacks do to these places is set algebra: a block adds its own place, a
rollback takes away those of its account from a height on, whatever else the statements do. -/

namespace MinotariWallet

open Sql Exec

/-- A block of an account, by the height in the signed column. -/
structure Place where
  accountId : AccountId
  height : Int
  hash : FixedHash
deriving DecidableEq

def OutputRow.place (o : OutputRow) : Place :=
  ⟨o.accountId, o.minedInBlockHeight, o.minedInBlockHash⟩

def InputRow.place (i : InputRow) : Place :=
  ⟨i.accountId, i.minedInBlockHeight, i.minedInBlockHash⟩

def ScannedTipBlockRow.place (r : ScannedTipBlockRow) : Place := ⟨r.accountId, r.height, r.hash⟩

/-- The places of the block for the account. -/
def BlockScanResult.place (block : BlockScanResult) (accountId : AccountId) : Place :=
  ⟨accountId, asI64 block.height, block.blockHash⟩

/-- The place is not one of the account at or above the height, as SQL compares the columns. -/
def Place.Survives (accountId : AccountId) (height : Nat) (p : Place) : Prop :=
  p.accountId = accountId → p.height < asI64 height

/-- The places of undeleted outputs and inputs. -/
def activePlaces (outputs : AutoTable OutputRow) (inputs : AutoTable InputRow) : Set Place :=
  {p | (∃ o ∈ outputs.rows, o.active = true ∧ o.place = p) ∨
    ∃ i ∈ inputs.rows, i.active = true ∧ i.place = p}

/-- The places of recorded blocks. -/
def tipPlaces (tips : AutoTable ScannedTipBlockRow) : Set Place :=
  {p | ∃ r ∈ tips.rows, r.place = p}

namespace Db

def activePlaces (db : Db) : Set Place := MinotariWallet.activePlaces db.outputs db.inputs

def tipPlaces (db : Db) : Set Place := MinotariWallet.tipPlaces db.scannedTipBlocks

end Db

section Tables

variable {outputs : AutoTable OutputRow} {inputs : AutoTable InputRow}

theorem activePlaces_insertOutput {mk : Id → OutputRow} (hmk : ∀ k, Keyed.key (mk k) = k) {p : Place}
    (hactive : ∀ k, (mk k).active = true) (hplace : ∀ k, (mk k).place = p) :
    activePlaces (outputs.insert mk hmk) inputs = insert p (activePlaces outputs inputs) := by
  ext q
  simp only [activePlaces, Set.mem_ofPred_eq, Set.mem_insert_iff, AutoTable.mem_insert]
  constructor
  · rintro (⟨o, ho | rfl, hact, rfl⟩ | hi)
    · exact Or.inr (Or.inl ⟨o, ho, hact, rfl⟩)
    · exact Or.inl (hplace _)
    · exact Or.inr (Or.inr hi)
  · rintro (rfl | ⟨o, ho, hact, rfl⟩ | hi)
    · exact Or.inl ⟨_, Or.inr rfl, hactive _, hplace _⟩
    · exact Or.inl ⟨o, Or.inl ho, hact, rfl⟩
    · exact Or.inr hi

theorem activePlaces_insertInput {mk : Id → InputRow} (hmk : ∀ k, Keyed.key (mk k) = k) {p : Place}
    (hactive : ∀ k, (mk k).active = true) (hplace : ∀ k, (mk k).place = p) :
    activePlaces outputs (inputs.insert mk hmk) = insert p (activePlaces outputs inputs) := by
  ext q
  simp only [activePlaces, Set.mem_ofPred_eq, Set.mem_insert_iff, AutoTable.mem_insert]
  constructor
  · rintro (ho | ⟨i, hi | rfl, hact, rfl⟩)
    · exact Or.inr (Or.inl ho)
    · exact Or.inr (Or.inr ⟨i, hi, hact, rfl⟩)
    · exact Or.inl (hplace _)
  · rintro (rfl | ho | ⟨i, hi, hact, rfl⟩)
    · exact Or.inr ⟨_, Or.inr rfl, hactive _, hplace _⟩
    · exact Or.inl ho
    · exact Or.inr ⟨i, Or.inl hi, hact, rfl⟩

/-- An update of columns that neither delete a row nor move it. -/
theorem activePlaces_updateOutputs {q : OutputRow → Bool} {f : OutputRow → OutputRow}
    (hf : ∀ o, Keyed.key (f o) = Keyed.key o) (hactive : ∀ o, (f o).active = o.active)
    (hplace : ∀ o, (f o).place = o.place) :
    activePlaces (outputs.updateWhere q f hf) inputs = activePlaces outputs inputs := by
  have hrow : ∀ o, (if q o then f o else o).active = o.active ∧
      (if q o then f o else o).place = o.place := by
    intro o
    by_cases hq : q o
    · simp [hq, hactive, hplace]
    · simp [hq]
  ext p
  simp only [activePlaces, Set.mem_ofPred_eq, AutoTable.mem_updateWhere]
  refine or_congr_left ⟨?_, ?_⟩
  · rintro ⟨_, ⟨o, ho, rfl⟩, hact, rfl⟩
    exact ⟨o, ho, (hrow o).1 ▸ hact, (hrow o).2.symm⟩
  · rintro ⟨o, ho, hact, rfl⟩
    exact ⟨_, ⟨o, ho, rfl⟩, (hrow o).1.trans hact, (hrow o).2⟩

/-- A rollback's update of one of the two tables. -/
theorem activePlaces_setDeleted (db : Db) (accountId : AccountId) (height : Nat) (now : Timestamp) :
    activePlaces (db.setOutputsDeleted accountId height now).outputs
        (db.setInputsDeleted accountId height now).inputs =
      {p ∈ db.activePlaces | p.Survives accountId height} := by
  ext p
  simp only [activePlaces, Db.activePlaces, Set.mem_ofPred_eq]
  constructor
  · rintro (⟨o, ho, hact, rfl⟩ | ⟨i, hi, hact, rfl⟩)
    · obtain ⟨ho, -, hsurvives⟩ := (mem_setOutputsDeleted_active hact).mp ho
      exact ⟨Or.inl ⟨o, ho, hact, rfl⟩, fun ha => not_le.mp (fun hle => hsurvives ⟨ha, hle⟩)⟩
    · obtain ⟨hi, hsurvives⟩ := (mem_setInputsDeleted_active hact).mp hi
      exact ⟨Or.inr ⟨i, hi, hact, rfl⟩, fun ha => not_le.mp (fun hle => hsurvives ⟨ha, hle⟩)⟩
  · rintro ⟨⟨o, ho, hact, rfl⟩ | ⟨i, hi, hact, rfl⟩, hp⟩
    · exact Or.inl ⟨o, (mem_setOutputsDeleted_active hact).mpr
        ⟨ho, hact, fun h => not_le.mpr (hp h.1) h.2⟩, hact, rfl⟩
    · exact Or.inr ⟨i, (mem_setInputsDeleted_active hact).mpr
        ⟨hi, fun h => not_le.mpr (hp h.1) h.2⟩, hact, rfl⟩

theorem tipPlaces_deleteFromHeight (db : Db) (accountId : AccountId) (height : Nat) :
    (db.deleteScannedTipBlocksFromHeight accountId height).tipPlaces =
      {p ∈ db.tipPlaces | p.Survives accountId height} := by
  ext p
  simp only [Db.tipPlaces, tipPlaces, Db.deleteScannedTipBlocksFromHeight, AutoTable.mem_deleteWhere,
    Set.mem_ofPred_eq]
  constructor
  · rintro ⟨r, ⟨hr, hkept⟩, rfl⟩
    refine ⟨⟨r, hr, rfl⟩, fun ha => not_le.mp (fun hle => ?_)⟩
    rw [show r.accountId = accountId from ha] at hkept
    simp [show asI64 height ≤ r.height from hle] at hkept
  · rintro ⟨⟨r, hr, rfl⟩, hp⟩
    refine ⟨r, ⟨hr, ?_⟩, rfl⟩
    by_cases ha : r.accountId = accountId
    · simp [show ¬asI64 height ≤ r.height from not_le.mpr (hp ha)]
    · simp [ha]

end Tables

/-! ## Blocks -/

/-- A block adds at most its own place to those of the active rows, and exactly that to those of the
    recorded blocks. -/
structure PlaceAdded (p : Place) (db db' : Db) : Prop where
  kept : db.activePlaces ⊆ db'.activePlaces
  added : db'.activePlaces ⊆ insert p db.activePlaces
  tips : db'.tipPlaces = insert p db.tipPlaces

theorem tipPlaces_of_recorded {accountId : AccountId} {height : Int} {hash : FixedHash}
    {before after : AutoTable ScannedTipBlockRow}
    (h : TipRecorded accountId height hash before after) :
    tipPlaces after = insert ⟨accountId, height, hash⟩ (tipPlaces before) := by
  ext p
  constructor
  · rintro ⟨r, hr, rfl⟩
    rcases h.new r hr with hr | ⟨rfl, rfl, rfl⟩
    · exact Or.inr ⟨r, hr, rfl⟩
    · exact Or.inl rfl
  · rintro (rfl | ⟨r, hr, rfl⟩)
    · obtain ⟨r, hr, rfl, rfl, rfl⟩ := h.recorded
      exact ⟨r, hr, rfl⟩
    · exact ⟨r, h.kept r hr, rfl⟩

section Block

variable (env : ScanEnv) (bp : BlockProcessor) (now : Timestamp) (block : BlockScanResult)
  (accountId : AccountId)

theorem activePlaces_updateOutputStatus (db : Db) (outputId : Id) (status : OutputStatus) :
    (db.updateOutputStatus outputId status).activePlaces = db.activePlaces :=
  activePlaces_updateOutputs (q := fun o => o.id == outputId) (f := fun o => { o with status })
    (fun _ => rfl) (fun _ => rfl) (fun _ => rfl)

theorem activePlaces_markOutputConfirmed (db : Db) (hash : FixedHash) (height : Nat)
    (blockHash : FixedHash) :
    (db.markOutputConfirmed hash height blockHash).activePlaces = db.activePlaces :=
  activePlaces_updateOutputs (q := fun o => o.outputHash == hash)
    (f := fun o => { o with
      confirmedHeight := some (asI64 height)
      confirmedHash := some blockHash }) (fun _ => rfl) (fun _ => rfl) (fun _ => rfl)

variable {env bp now block accountId}

theorem activePlaces_insertOutput_ok {key : PrivateKey} {hash : FixedHash} {output : WalletOutput}
    {timestamp : Nat} {memoParsed memoHex : Option Memo} {payref : PaymentReference} {isBurn : Bool}
    {id : Id} {db db' : Db}
    (h : db.insertOutput env.toExternals accountId key hash output block.height block.blockHash
      timestamp memoParsed memoHex payref isBurn = .ok (id, db')) :
    db'.activePlaces = insert (block.place accountId) db.activePlaces := by
  obtain ⟨time, -, -, -, rfl⟩ := insertOutput_ok h
  exact activePlaces_insertOutput (fun _ => rfl) (fun _ => rfl) (fun _ => rfl)

theorem activePlaces_insertOrIgnoreInput {outputId : Id} {timestamp : Timestamp} {inputId : Id}
    {db : Db}
    (h : (db.insertOrIgnoreInput accountId outputId block.height block.blockHash
      timestamp).getActiveInputId outputId = .ok inputId) :
    (db.insertOrIgnoreInput accountId outputId block.height block.blockHash timestamp).activePlaces =
        db.activePlaces ∨
      (db.insertOrIgnoreInput accountId outputId block.height block.blockHash timestamp).activePlaces =
        insert (block.place accountId) db.activePlaces := by
  rcases getActiveInputId_insertOrIgnoreInput h with ⟨-, heq⟩ | ⟨-, -, heq⟩ <;> rw [heq]
  · exact Or.inl rfl
  · exact Or.inr (activePlaces_insertInput (fun _ => rfl) (fun _ => rfl) (fun _ => rfl))

variable (env bp now block accountId)

/-- The active rows while a block is processed, those before it being at `places`. -/
theorem activePlaces_rule (places : Set Place) :
    let J : Ledger → Prop := fun L => places ⊆ activePlaces L.outputs L.inputs ∧
      activePlaces L.outputs L.inputs ⊆ insert (block.place accountId) places
    BlockRule env bp now block accountId (fun _ => J) (fun _ => J) J where
  skip _ _ _ _ h := h
  credit w rest key memo payref id db db' _ hins h := by
    have hplaces := activePlaces_insertOutput_ok hins
    constructor
    · show places ⊆ db'.activePlaces
      rw [hplaces]
      exact h.1.trans (Set.subset_insert _ _)
    · show db'.activePlaces ⊆ _
      rw [hplaces]
      exact Set.insert_subset (Set.mem_insert _ _) h.2
  outputsDone _ h := h
  ignore _ _ _ _ h := h
  debit hash rest info timestamp inputId db _ hid h := by
    have hspent := activePlaces_updateOutputStatus (db.insertOrIgnoreInput accountId info.id
      block.height block.blockHash timestamp) info.id .spent
    constructor
    · show places ⊆ ((db.insertOrIgnoreInput accountId info.id block.height block.blockHash
        timestamp).updateOutputStatus info.id .spent).activePlaces
      rw [hspent]
      rcases activePlaces_insertOrIgnoreInput hid with hplaces | hplaces <;> rw [hplaces]
      · exact h.1
      · exact h.1.trans (Set.subset_insert _ _)
    · show ((db.insertOrIgnoreInput accountId info.id block.height block.blockHash
        timestamp).updateOutputStatus info.id .spent).activePlaces ⊆ _
      rw [hspent]
      rcases activePlaces_insertOrIgnoreInput hid with hplaces | hplaces <;> rw [hplaces]
      · exact h.2
      · exact Set.insert_subset (Set.mem_insert _ _) h.2
  record db h := by
    unfold Db.insertScannedTipBlock
    split <;> exact h
  confirm db hash h := by
    have hsame := activePlaces_markOutputConfirmed db hash block.height block.blockHash
    constructor
    · show places ⊆ (db.markOutputConfirmed hash block.height block.blockHash).activePlaces
      rw [hsame]
      exact h.1
    · show (db.markOutputConfirmed hash block.height block.blockHash).activePlaces ⊆ _
      rw [hsame]
      exact h.2

variable {env bp now block accountId}

theorem processBlock_places {c c' : Conn Db} {outcome : BlockOutcome}
    (h : bp.processBlock env now block accountId c = .ok outcome c') :
    PlaceAdded (block.place accountId) c.store c'.store := by
  obtain ⟨hkept, hadded⟩ := processBlock_ensures
    (activePlaces_rule env bp now block accountId c.store.activePlaces) c outcome c'
    ⟨subset_rfl, Set.subset_insert _ _⟩ h
  exact ⟨hkept, hadded, tipPlaces_of_recorded (processBlock_tipRecorded env bp now block accountId
    c.store.scannedTipBlocks c outcome c' rfl h)⟩

end Block

/-! ## Rollbacks -/

/-- The tables whose rows have places. -/
abbrev PlaceTables := AutoTable OutputRow × AutoTable InputRow × AutoTable ScannedTipBlockRow

def Db.placeTables (db : Db) : PlaceTables := (db.outputs, db.inputs, db.scannedTipBlocks)

theorem keeps_placeTables {α : Type} {x : DbM α} (h : Keeps Db.ledger x) :
    Keeps Db.placeTables x := by
  intro c
  have hc := h c
  have hsame : ∀ db db' : Db, db.ledger = db'.ledger → db.placeTables = db'.placeTables := by
    intro db db' heq
    have hout := congrArg Ledger.outputs heq
    have hin := congrArg Ledger.inputs heq
    have htips := congrArg Ledger.scannedTipBlocks heq
    simp only [Db.ledger] at hout hin htips
    simp [Db.placeTables, hout, hin, htips]
  exact hsame _ _ hc

theorem reverseBalanceChange_keeps (original : Db → Option Id)
    (reversal : Option Id → BalanceChange) :
    Keeps Db.placeTables (reverseBalanceChange original reversal) :=
  reverseBalanceChange_keepsView (fun _ _ => rfl) original reversal

section Rollback

variable {accountId : AccountId} {height : Nat} {now : Timestamp} {db db' : Db}

/-- The places after a rollback: those that survive it. -/
structure PlacesRolledBack (accountId : AccountId) (height : Nat) (db db' : Db) : Prop where
  active : db'.activePlaces = {p ∈ db.activePlaces | p.Survives accountId height}
  tips : db'.tipPlaces = {p ∈ db.tipPlaces | p.Survives accountId height}

/-- The places wherever a rollback stops: no recorded block is gone before the outputs and inputs
    from the height on are. -/
structure PlacesReduced (accountId : AccountId) (height : Nat) (db db' : Db) : Prop where
  active : db'.activePlaces ⊆ db.activePlaces
  tips : db'.tipPlaces = db.tipPlaces ∨ PlacesRolledBack accountId height db db'

theorem PlacesRolledBack.reduced (h : PlacesRolledBack accountId height db db') :
    PlacesReduced accountId height db db' := by
  refine ⟨?_, Or.inr h⟩
  rw [h.active]
  exact Set.sep_subset _ _

theorem RolledBack.places (h : RolledBack accountId height now db db') :
    PlacesRolledBack accountId height db db' := by
  constructor
  · rw [Db.activePlaces, h.outputs, h.inputs]
    exact activePlaces_setDeleted db accountId height now
  · rw [Db.tipPlaces, h.tips]
    exact tipPlaces_deleteFromHeight db accountId height

theorem placesReduced_of_tables (hout : db'.outputs = db.outputs ∨
      db'.outputs = (db.setOutputsDeleted accountId height now).outputs)
    (hin : db'.inputs = db.inputs ∨ db'.inputs = (db.setInputsDeleted accountId height now).inputs)
    (htips : db'.scannedTipBlocks = db.scannedTipBlocks) :
    PlacesReduced accountId height db db' := by
  have houtputs : ∀ o ∈ db'.outputs.rows, o.active = true → o ∈ db.outputs.rows := by
    intro o ho hact
    rcases hout with heq | heq <;> rw [heq] at ho
    · exact ho
    · exact ((mem_setOutputsDeleted_active hact).mp ho).1
  have hinputs : ∀ i ∈ db'.inputs.rows, i.active = true → i ∈ db.inputs.rows := by
    intro i hi hact
    rcases hin with heq | heq <;> rw [heq] at hi
    · exact hi
    · exact ((mem_setInputsDeleted_active hact).mp hi).1
  refine ⟨?_, Or.inl (by rw [Db.tipPlaces, htips]; rfl)⟩
  rintro p (⟨o, ho, hact, rfl⟩ | ⟨i, hi, hact, rfl⟩)
  · exact Or.inl ⟨o, houtputs o ho hact, hact, rfl⟩
  · exact Or.inr ⟨i, hinputs i hi hact, hact, rfl⟩

/-- The statements of one of the two loops keep the tables, its update then deletes. -/
theorem softDelete_throughout {α : Type} {rows : Db → List α} {reverse : α → DbM Unit}
    {setDeleted : Db → Db} {v v' : PlaceTables} {E : Db → Prop}
    (hreverse : ∀ row, Keeps Db.placeTables (reverse row))
    (hset : ∀ s : Db, s.placeTables = v → (setDeleted s).placeTables = v')
    (hE : ∀ s : Db, s.placeTables = v → E s) :
    Throughout (fun s => s.placeTables = v)
      (do let found ← query rows
          found.forM reverse
          update setDeleted : DbM Unit)
      (fun _ s => s.placeTables = v') E := by
  refine (Throughout.of_keeps Keeps.query hE).bind (fun found => ?_)
  refine (Throughout.of_keeps (Keeps.forM hreverse) hE).bind (fun _ => ?_)
  exact Throughout.update hE hset

/-- A rollback, wherever it stops. -/
theorem rollbackFromHeight_throughout (accountId : AccountId) (height : Nat)
    (webhookConfig : Option WebhookTriggerConfig) (now : Timestamp) (db : Db) :
    Throughout (fun s => s.placeTables = db.placeTables)
      (rollbackFromHeight accountId height webhookConfig now)
      (fun _ s => PlacesRolledBack accountId height db s)
      (fun s => PlacesReduced accountId height db s) := by
  have hstage : ∀ outputs inputs, (outputs = db.outputs ∨
      outputs = (db.setOutputsDeleted accountId height now).outputs) → (inputs = db.inputs ∨
      inputs = (db.setInputsDeleted accountId height now).inputs) →
      ∀ s : Db, s.placeTables = (outputs, inputs, db.scannedTipBlocks) →
        PlacesReduced accountId height db s := by
    intro outputs inputs hout hin s hs
    simp only [Db.placeTables, Prod.mk.injEq] at hs
    obtain ⟨rfl, rfl, htips⟩ := hs
    exact placesReduced_of_tables hout hin htips
  have hend : ∀ s : Db, s.placeTables = ((db.setOutputsDeleted accountId height now).outputs,
      (db.setInputsDeleted accountId height now).inputs,
      (db.deleteScannedTipBlocksFromHeight accountId height).scannedTipBlocks) →
        PlacesRolledBack accountId height db s := by
    intro s hs
    simp only [Db.placeTables, Prod.mk.injEq] at hs
    obtain ⟨hout, hin, htips⟩ := hs
    constructor
    · rw [Db.activePlaces, hout, hin]
      exact activePlaces_setDeleted db accountId height now
    · rw [Db.tipPlaces, htips]
      exact tipPlaces_deleteFromHeight db accountId height
  have h0 := hstage _ _ (Or.inl rfl) (Or.inl rfl)
  have h1 := hstage _ _ (Or.inl rfl) (Or.inr rfl)
  have h2 := hstage _ _ (Or.inr rfl) (Or.inr rfl)
  have h3 := fun s hs => (hend s hs).reduced
  have hinputs : Throughout (fun s => s.placeTables = db.placeTables)
      (softDeleteInputsFromHeight accountId height now)
      (fun _ s => s.placeTables = (db.outputs, (db.setInputsDeleted accountId height now).inputs,
        db.scannedTipBlocks)) (fun s => PlacesReduced accountId height db s) := by
    refine softDelete_throughout (fun row => reverseBalanceChange_keeps _ _) (fun s hs => ?_) h0
    simp only [Db.placeTables, Prod.mk.injEq] at hs
    simp only [Db.placeTables, Db.setInputsDeleted, hs.1, hs.2.1, hs.2.2]
  have houtputs : Throughout (fun s => s.placeTables = (db.outputs,
        (db.setInputsDeleted accountId height now).inputs, db.scannedTipBlocks))
      (softDeleteOutputsFromHeight accountId height now)
      (fun _ s => s.placeTables = ((db.setOutputsDeleted accountId height now).outputs,
        (db.setInputsDeleted accountId height now).inputs, db.scannedTipBlocks))
      (fun s => PlacesReduced accountId height db s) := by
    refine softDelete_throughout (fun row => reverseBalanceChange_keeps _ _) (fun s hs => ?_) h1
    simp only [Db.placeTables, Prod.mk.injEq] at hs
    simp only [Db.placeTables, Db.setOutputsDeleted, hs.1, hs.2.1, hs.2.2]
  have htips : ∀ s : Db, s.placeTables = ((db.setOutputsDeleted accountId height now).outputs,
      (db.setInputsDeleted accountId height now).inputs, db.scannedTipBlocks) →
      (s.deleteScannedTipBlocksFromHeight accountId height).placeTables =
        ((db.setOutputsDeleted accountId height now).outputs,
          (db.setInputsDeleted accountId height now).inputs,
          (db.deleteScannedTipBlocksFromHeight accountId height).scannedTipBlocks) := by
    intro s hs
    simp only [Db.placeTables, Prod.mk.injEq] at hs
    simp only [Db.placeTables, Db.deleteScannedTipBlocksFromHeight, hs.1, hs.2.1, hs.2.2]
  have hlog : ∀ events logged, Keeps Db.placeTables
      (List.foldlM (logWalletEvent accountId) logged events) :=
    fun events logged => keeps_placeTables (logWalletEvents_keeps accountId logged events)
  have hreset : Keeps Db.placeTables
      (update (·.resetMinedCompletedTransactionsFromHeight accountId height now) : DbM Unit) :=
    Keeps.update (fun _ => rfl)
  unfold rollbackFromHeight
  refine (Throughout.of_keeps Keeps.tryQuery h0).bind (fun tipBlocks => ?_)
  refine (Throughout.of_keeps (hlog _ _) h0).bind (fun events => ?_)
  refine (Throughout.of_keeps Keeps.query h0).bind (fun affected => ?_)
  refine (Throughout.of_keeps (hlog _ _) h0).bind (fun events => ?_)
  refine (Throughout.of_keeps (x := cancelPendingTransactionsByIds _ _)
    (Keeps.ite Keeps.pure (Keeps.update (fun _ => rfl))) h0).bind (fun _ => ?_)
  refine (Throughout.of_keeps (hlog _ _) h0).bind (fun events => ?_)
  refine hinputs.bind (fun _ => ?_)
  refine houtputs.bind (fun _ => ?_)
  refine Throughout.bind (Q := fun _ s => s.placeTables =
    ((db.setOutputsDeleted accountId height now).outputs,
      (db.setInputsDeleted accountId height now).inputs,
      (db.deleteScannedTipBlocksFromHeight accountId height).scannedTipBlocks))
    (Throughout.update h2 htips) (fun _ => ?_)
  refine (Throughout.of_keeps (keeps_placeTables
    (saveDisplayedTransactionPayrefsBeforeReorg_keeps _ _ _)) h3).bind (fun _ => ?_)
  refine (Throughout.of_keeps (keeps_placeTables
    (markDisplayedTransactionsReorganizedAndReturn_keeps _ _)) h3).bind (fun reorganized => ?_)
  refine (Throughout.of_keeps (keeps_placeTables
    (saveCompletedTransactionPayrefsBeforeReorg_keeps _ _ _)) h3).bind (fun _ => ?_)
  refine (Throughout.of_keeps hreset h3).bind (fun _ => ?_)
  exact (Throughout.of_keeps (keeps_placeTables (triggerWebhooks_keeps _ _ _ _)) h3).bind
    (fun _ => Throughout.pure hend)

end Rollback

/-! ## Heights of one account -/

namespace Db

/-- The heights at which the account has undeleted outputs or inputs. -/
def activeHeights (db : Db) (accountId : AccountId) : List Int :=
  (db.outputs.select (fun o => o.active && o.accountId == accountId)).map (·.minedInBlockHeight) ++
    (db.inputs.select (fun i => i.active && i.accountId == accountId)).map (·.minedInBlockHeight)

/-- The heights at which the account has recorded blocks. -/
def tipHeights (db : Db) (accountId : AccountId) : List Int :=
  (db.scannedTipBlocks.select (fun r => r.accountId == accountId)).map (·.height)

end Db

section Heights

variable {db db' : Db} {accountId a : AccountId} {height : Nat} {h : Int} {p : Place}

theorem mem_activeHeights :
    h ∈ db.activeHeights a ↔ ∃ q ∈ db.activePlaces, q.accountId = a ∧ q.height = h := by
  simp only [Db.activeHeights, List.mem_append, List.mem_map, Table.mem_select, Bool.and_eq_true,
    beq_iff_eq]
  constructor
  · rintro (⟨o, ⟨ho, hact, rfl⟩, rfl⟩ | ⟨i, ⟨hi, hact, rfl⟩, rfl⟩)
    · exact ⟨o.place, Or.inl ⟨o, ho, hact, rfl⟩, rfl, rfl⟩
    · exact ⟨i.place, Or.inr ⟨i, hi, hact, rfl⟩, rfl, rfl⟩
  · rintro ⟨_, ⟨o, ho, hact, rfl⟩ | ⟨i, hi, hact, rfl⟩, rfl, rfl⟩
    · exact Or.inl ⟨o, ⟨ho, hact, rfl⟩, rfl⟩
    · exact Or.inr ⟨i, ⟨hi, hact, rfl⟩, rfl⟩

theorem mem_tipHeights :
    h ∈ db.tipHeights a ↔ ∃ q ∈ db.tipPlaces, q.accountId = a ∧ q.height = h := by
  simp only [Db.tipHeights, List.mem_map, Table.mem_select, beq_iff_eq]
  constructor
  · rintro ⟨r, ⟨hr, rfl⟩, rfl⟩
    exact ⟨r.place, ⟨r, hr, rfl⟩, rfl, rfl⟩
  · rintro ⟨_, ⟨r, hr, rfl⟩, rfl, rfl⟩
    exact ⟨r, ⟨hr, rfl⟩, rfl⟩

theorem PlaceAdded.activeHeights (hadd : PlaceAdded p db db') (hh : h ∈ db'.activeHeights a) :
    h ∈ db.activeHeights a ∨ (a = p.accountId ∧ h = p.height) := by
  obtain ⟨q, hq, rfl, rfl⟩ := mem_activeHeights.mp hh
  rcases hadd.added hq with rfl | hq
  · exact Or.inr ⟨rfl, rfl⟩
  · exact Or.inl (mem_activeHeights.mpr ⟨q, hq, rfl, rfl⟩)

theorem PlaceAdded.activeHeights_kept (hadd : PlaceAdded p db db') (hh : h ∈ db.activeHeights a) :
    h ∈ db'.activeHeights a := by
  obtain ⟨q, hq, rfl, rfl⟩ := mem_activeHeights.mp hh
  exact mem_activeHeights.mpr ⟨q, hadd.kept hq, rfl, rfl⟩

theorem PlaceAdded.tipHeights (hadd : PlaceAdded p db db') :
    h ∈ db'.tipHeights a ↔ h ∈ db.tipHeights a ∨ (a = p.accountId ∧ h = p.height) := by
  rw [mem_tipHeights, mem_tipHeights, hadd.tips]
  constructor
  · rintro ⟨q, rfl | hq, rfl, rfl⟩
    · exact Or.inr ⟨rfl, rfl⟩
    · exact Or.inl ⟨q, hq, rfl, rfl⟩
  · rintro (⟨q, hq, rfl, rfl⟩ | ⟨rfl, rfl⟩)
    · exact ⟨q, Or.inr hq, rfl, rfl⟩
    · exact ⟨p, Or.inl rfl, rfl, rfl⟩

theorem PlacesRolledBack.activeHeights (hrolled : PlacesRolledBack accountId height db db') :
    h ∈ db'.activeHeights a ↔ h ∈ db.activeHeights a ∧ (a = accountId → h < asI64 height) := by
  rw [mem_activeHeights, mem_activeHeights, hrolled.active]
  constructor
  · rintro ⟨q, ⟨hq, hsurvives⟩, rfl, rfl⟩
    exact ⟨⟨q, hq, rfl, rfl⟩, hsurvives⟩
  · rintro ⟨⟨q, hq, rfl, rfl⟩, hsurvives⟩
    exact ⟨q, ⟨hq, hsurvives⟩, rfl, rfl⟩

theorem PlacesRolledBack.tipHeights (hrolled : PlacesRolledBack accountId height db db') :
    h ∈ db'.tipHeights a ↔ h ∈ db.tipHeights a ∧ (a = accountId → h < asI64 height) := by
  rw [mem_tipHeights, mem_tipHeights, hrolled.tips]
  constructor
  · rintro ⟨q, ⟨hq, hsurvives⟩, rfl, rfl⟩
    exact ⟨⟨q, hq, rfl, rfl⟩, hsurvives⟩
  · rintro ⟨⟨q, hq, rfl, rfl⟩, hsurvives⟩
    exact ⟨q, ⟨hq, hsurvives⟩, rfl, rfl⟩

theorem PlacesReduced.activeHeights (hred : PlacesReduced accountId height db db')
    (hh : h ∈ db'.activeHeights a) : h ∈ db.activeHeights a := by
  obtain ⟨q, hq, rfl, rfl⟩ := mem_activeHeights.mp hh
  exact mem_activeHeights.mpr ⟨q, hred.active hq, rfl, rfl⟩

theorem mem_tipHeights_of_eq (heq : db'.tipPlaces = db.tipPlaces) :
    h ∈ db'.tipHeights a ↔ h ∈ db.tipHeights a := by
  rw [mem_tipHeights, mem_tipHeights, heq]

/-- Pruning takes away recorded blocks only. -/
theorem mem_tipHeights_prune {currentTipHeight : Nat} :
    h ∈ (db.pruneScannedTipBlocks accountId currentTipHeight).tipHeights a ↔ h ∈ db.tipHeights a ∧
      ¬(a = accountId ∧ h < asI64 (currentTipHeight - Db.recentBlocksToKeep) ∧ 0 ≤ h ∧
        h % asI64 Db.oldBlocksPruningInterval ≠ 0) := by
  simp only [Db.tipHeights, Db.pruneScannedTipBlocks, List.mem_map, Table.mem_select,
    AutoTable.mem_deleteWhere, beq_iff_eq]
  constructor
  · rintro ⟨r, ⟨⟨hr, hkept⟩, rfl⟩, rfl⟩
    refine ⟨⟨r, ⟨hr, rfl⟩, rfl⟩, ?_⟩
    rintro ⟨rfl, hlt, hpos, hmod⟩
    simp [hlt, hpos, hmod] at hkept
  · rintro ⟨⟨r, ⟨hr, rfl⟩, rfl⟩, hnot⟩
    refine ⟨r, ⟨⟨hr, ?_⟩, rfl⟩, rfl⟩
    rw [← Bool.not_eq_true]
    intro hp
    simp only [Bool.and_eq_true, beq_iff_eq, decide_eq_true_eq] at hp
    exact hnot ⟨hp.1.1.1, hp.1.1.2, hp.1.2, hp.2⟩

end Heights

end MinotariWallet
