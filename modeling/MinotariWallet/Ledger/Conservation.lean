import MinotariWallet.Lib.Journal
import MinotariWallet.Ledger.Machine

set_option autoImplicit false

/-! # Conservation of the ledger

`balance_changes` is a journal: scanning posts a credit for each output found and a debit for each
input, and a rollback reverses them one by one before it deletes the outputs and inputs. The
invariant is that the active balance changes are the credits of the undeleted outputs and the debits
of the undeleted inputs, one for each; the balances follow from it. -/

namespace MinotariWallet

open Sql Exec

instance : Entry BalanceChangeRow AccountId (Option Id × Option Id) where
  posting b := ⟨b.accountId, (b.causedByOutputId, b.causedByInputId), b.balanceCredit,
    b.balanceDebit⟩
  isReversal := BalanceChangeRow.isReversal
  isReversed := BalanceChangeRow.isReversed
  reversalOf := BalanceChangeRow.reversalOfBalanceChangeId

abbrev BalancePosting := Posting AccountId (Option Id × Option Id)

/-- What `make_balance_change_for_output` books for an output. -/
def OutputRow.creditPosting (o : OutputRow) : BalancePosting :=
  ⟨o.accountId, (some o.id, none), o.value, 0⟩

/-- What `record_input_balance_change` books for an input of an output of this value. -/
def InputRow.debitPosting (value : Int) (i : InputRow) : BalancePosting :=
  ⟨i.accountId, (none, some i.id), 0, value⟩

/-- The value of the output that an input spends. -/
def spentValue (outputs : AutoTable OutputRow) (i : InputRow) : Int :=
  ((outputs.get? i.outputId).map (·.value)).getD 0

/-- The credits of the outputs and the debits of the inputs that are kept. -/
def expectedPostings (keepO : OutputRow → Bool) (keepI : InputRow → Bool)
    (outputs : AutoTable OutputRow) (inputs : AutoTable InputRow) : List BalancePosting :=
  (outputs.select keepO).map OutputRow.creditPosting ++
    (inputs.select keepI).map (fun i => i.debitPosting (spentValue outputs i))

/-- The kept outputs and inputs are booked: an input refers to a kept output of its account that is
    no higher than it, no two inputs to the same one, and the journal has their postings. -/
structure Booked (keepO : OutputRow → Bool) (keepI : InputRow → Bool)
    (outputs : AutoTable OutputRow) (inputs : AutoTable InputRow)
    (balanceChanges : AutoTable BalanceChangeRow) : Prop where
  refs : ∀ i ∈ inputs.rows, keepI i = true → ∃ o ∈ outputs.rows, keepO o = true ∧
    o.id = i.outputId ∧ o.accountId = i.accountId ∧ o.minedInBlockHeight ≤ i.minedInBlockHeight
  unique : ∀ i ∈ inputs.rows, ∀ j ∈ inputs.rows, keepI i = true → keepI j = true →
    i.outputId = j.outputId → i = j
  values : ∀ o ∈ outputs.rows, 0 ≤ o.value ∧ o.value = asI64 o.walletOutput.value
  journal : Journal.Sound balanceChanges (expectedPostings keepO keepI outputs inputs)

/-- The heights of the undeleted outputs are known for their accounts. -/
def HeightsKnown (known : AccountId → Int → Prop) (outputs : AutoTable OutputRow) : Prop :=
  ∀ o ∈ outputs.rows, o.active = true → known o.accountId o.minedInBlockHeight

/-- A block of this height is recorded for the account. -/
def Recorded (scannedTipBlocks : AutoTable ScannedTipBlockRow) (accountId : AccountId)
    (height : Int) : Prop :=
  ∃ b ∈ scannedTipBlocks.rows, b.accountId = accountId ∧ b.height = height

/-- The invariant between calls. -/
def LedgerBooked (L : Ledger) : Prop :=
  Booked OutputRow.active InputRow.active L.outputs L.inputs L.balanceChanges ∧
    HeightsKnown (Recorded L.scannedTipBlocks) L.outputs

/-! ## Well-formed calls -/

/-- The block is above the recorded tip of the account (as the columns compare), spends no output
    twice, and its values fit the columns. -/
@[mk_iff]
structure WellFormedBlock (db : Db) (block : BlockScanResult) (accountId : AccountId) : Prop where
  aboveTip : ∀ b ∈ db.scannedTipBlocks.rows, b.accountId = accountId → b.height < asI64 block.height
  distinctInputs : block.inputs.Nodup
  spentOnce : ∀ o ∈ db.outputs.rows, o.active = true → o.accountId = accountId →
    o.outputHash ∈ block.inputs → ∀ i ∈ db.inputs.rows, i.active = true → i.outputId ≠ o.id
  values : ∀ w ∈ block.walletOutputs, w.2.1.value < 2 ^ 63

def WellFormedCall (db : Db) : LedgerAction → Prop
  | .processBlock _ block accountId _ => WellFormedBlock db block accountId
  | _ => True

instance (db : Db) (block : BlockScanResult) (accountId : AccountId) :
    Decidable (WellFormedBlock db block accountId) :=
  decidable_of_iff' _ (wellFormedBlock_iff db block accountId)

instance (db : Db) (a : LedgerAction) : Decidable (WellFormedCall db a) := by
  cases a <;> unfold WellFormedCall <;> infer_instance

/-! ## Outputs and inputs -/

section Tables

variable {outputs : AutoTable OutputRow} {inputs : AutoTable InputRow}
  {keepO keepO' : OutputRow → Bool} {keepI keepI' : InputRow → Bool}

theorem spentValue_eq {o : OutputRow} {i : InputRow} (ho : o ∈ outputs.rows)
    (hid : o.id = i.outputId) : spentValue outputs i = o.value := by
  have hget : outputs.get? i.outputId = some o := Table.get?_eq_some.mpr ⟨ho, hid⟩
  simp [spentValue, hget]

/-- `f` leaves alone what the books know of the outputs with `p`. -/
structure KeepsCoins (keepO : OutputRow → Bool) (p : OutputRow → Bool) (f : OutputRow → OutputRow) :
    Prop where
  id : ∀ o, (f o).id = o.id
  accountId : ∀ o, (f o).accountId = o.accountId
  value : ∀ o, (f o).value = o.value
  walletOutput : ∀ o, (f o).walletOutput = o.walletOutput
  height : ∀ o, (f o).minedInBlockHeight = o.minedInBlockHeight
  keep : ∀ o, p o = true → keepO (f o) = keepO o

theorem mem_updateOutputs {p : OutputRow → Bool} {f : OutputRow → OutputRow}
    (hf : KeepsCoins keepO p f) {o' : OutputRow}
    (ho' : o' ∈ (outputs.updateWhere p f hf.id).rows) :
    ∃ o ∈ outputs.rows, o'.id = o.id ∧ o'.accountId = o.accountId ∧ o'.value = o.value ∧
      o'.walletOutput = o.walletOutput ∧ o'.minedInBlockHeight = o.minedInBlockHeight ∧
      keepO o' = keepO o := by
  obtain ⟨o, ho, rfl⟩ := (AutoTable.mem_updateWhere hf.id).mp ho'
  refine ⟨o, ho, ?_⟩
  by_cases hp : p o
  · simp [hp, hf.id, hf.accountId, hf.value, hf.walletOutput, hf.height, hf.keep o hp]
  · simp [hp]

theorem mem_updateOutputs_of_mem {p : OutputRow → Bool} {f : OutputRow → OutputRow}
    (hf : KeepsCoins keepO p f) {o : OutputRow} (ho : o ∈ outputs.rows) :
    ∃ o' ∈ (outputs.updateWhere p f hf.id).rows, o'.id = o.id ∧ o'.accountId = o.accountId ∧
      o'.value = o.value ∧ o'.minedInBlockHeight = o.minedInBlockHeight ∧ keepO o' = keepO o := by
  refine ⟨_, (AutoTable.mem_updateWhere hf.id).mpr ⟨o, ho, rfl⟩, ?_⟩
  by_cases hp : p o
  · simp [hp, hf.id, hf.accountId, hf.value, hf.height, hf.keep o hp]
  · simp [hp]

theorem expectedPostings_updateOutputs {p : OutputRow → Bool} {f : OutputRow → OutputRow}
    (hf : KeepsCoins keepO p f)
    (hrefs : ∀ i ∈ inputs.rows, keepI i = true → ∃ o ∈ outputs.rows, o.id = i.outputId) :
    expectedPostings keepO keepI (outputs.updateWhere p f hf.id) inputs =
      expectedPostings keepO keepI outputs inputs := by
  unfold expectedPostings
  congr 1
  · refine Table.map_select_updateWhere hf.keep (fun o _ => ?_) hf.id
    simp [OutputRow.creditPosting, hf.id, hf.accountId, hf.value]
  · refine List.map_congr_left (fun i hi => ?_)
    obtain ⟨hi, hkeep⟩ := Table.mem_select.mp hi
    obtain ⟨o, ho, hid⟩ := hrefs i hi hkeep
    obtain ⟨o', ho', hid', -, hvalue, -⟩ := mem_updateOutputs_of_mem hf ho
    rw [spentValue_eq ho hid, spentValue_eq ho' (hid'.trans hid), hvalue]

theorem expectedPostings_insertOutput {m : Id → OutputRow}
    (hkeep : keepO (m (outputs.seq + 1)) = true)
    (hrefs : ∀ i ∈ inputs.rows, keepI i = true → ∃ o ∈ outputs.rows, o.id = i.outputId)
    (hmk : ∀ k, key (m k) = k) :
    (expectedPostings keepO keepI outputs inputs ++
        [(m (outputs.seq + 1)).creditPosting]).Perm
      (expectedPostings keepO keepI (outputs.insert m hmk) inputs) := by
  have hdebits : (inputs.select keepI).map (fun i => i.debitPosting (spentValue outputs i)) =
      (inputs.select keepI).map (fun i =>
        i.debitPosting (spentValue (outputs.insert m hmk) i)) := by
    refine List.map_congr_left (fun i hi => ?_)
    obtain ⟨hi, hk⟩ := Table.mem_select.mp hi
    obtain ⟨o, ho, hid⟩ := hrefs i hi hk
    rw [spentValue_eq ho hid, spentValue_eq ((AutoTable.mem_insert hmk).mpr (Or.inl ho)) hid]
  have hcredits : ((outputs.insert m hmk).select keepO).map OutputRow.creditPosting =
      (outputs.select keepO).map OutputRow.creditPosting ++
        [(m (outputs.seq + 1)).creditPosting] := by
    simp [Table.select, AutoTable.insert, hkeep]
  unfold expectedPostings
  rw [hcredits, ← hdebits, List.append_assoc, List.append_assoc]
  exact List.perm_append_comm.append_left _

theorem expectedPostings_insertInput {m : Id → InputRow} {o : OutputRow} (ho : o ∈ outputs.rows)
    (hid : o.id = (m (inputs.seq + 1)).outputId) (hkeep : keepI (m (inputs.seq + 1)) = true)
    (hmk : ∀ k, key (m k) = k) :
    expectedPostings keepO keepI outputs (inputs.insert m hmk) =
      expectedPostings keepO keepI outputs inputs ++
        [(m (inputs.seq + 1)).debitPosting o.value] := by
  simp [expectedPostings, Table.select, AutoTable.insert, hkeep, spentValue_eq ho hid]

/-- Taking one input out of what is kept. -/
theorem expectedPostings_dropInput {i : InputRow} (hi : i ∈ inputs.rows) (hkeep : keepI i = true)
    (hrest : ∀ j ∈ inputs.rows, keepI' j = (!(j.id == i.id) && keepI j)) :
    (expectedPostings keepO keepI outputs inputs).Perm
      (i.debitPosting (spentValue outputs i) :: expectedPostings keepO keepI' outputs inputs) := by
  have hselect : (inputs.select keepI).filter (fun j => !(key j == key i)) =
      inputs.select keepI' := by
    rw [Table.select, List.filter_filter]
    exact List.filter_congr (fun j hj => (hrest j hj).symm)
  have hperm := Table.perm_cons_filter_key (inputs.nodup_select keepI)
    (Table.mem_select.mpr ⟨hi, hkeep⟩)
  rw [hselect] at hperm
  unfold expectedPostings
  exact ((hperm.map _).append_left _).trans List.perm_middle

/-- Taking one output out of what is kept. -/
theorem expectedPostings_dropOutput {o : OutputRow} (ho : o ∈ outputs.rows) (hkeep : keepO o = true)
    (hrest : ∀ x ∈ outputs.rows, keepO' x = (!(x.id == o.id) && keepO x)) :
    (expectedPostings keepO keepI outputs inputs).Perm
      (o.creditPosting :: expectedPostings keepO' keepI outputs inputs) := by
  have hselect : (outputs.select keepO).filter (fun x => !(key x == key o)) =
      outputs.select keepO' := by
    rw [Table.select, List.filter_filter]
    exact List.filter_congr (fun x hx => (hrest x hx).symm)
  have hperm := Table.perm_cons_filter_key (outputs.nodup_select keepO)
    (Table.mem_select.mpr ⟨ho, hkeep⟩)
  rw [hselect] at hperm
  unfold expectedPostings
  exact (hperm.map _).append_right _

end Tables

/-! ## What the statements keep -/

section Statements

variable {keepO keepO' : OutputRow → Bool} {keepI keepI' : InputRow → Bool}
  {outputs : AutoTable OutputRow} {inputs : AutoTable InputRow}
  {balanceChanges : AutoTable BalanceChangeRow}

theorem Booked.congr (h : Booked keepO keepI outputs inputs balanceChanges) (hO : ∀ o ∈ outputs.rows, keepO o = keepO' o)
    (hI : ∀ i ∈ inputs.rows, keepI i = keepI' i) : Booked keepO' keepI' outputs inputs balanceChanges where
  refs := fun i hi hkeep => by
    obtain ⟨o, ho, hk, hrest⟩ := h.refs i hi ((hI i hi).trans hkeep)
    exact ⟨o, ho, (hO o ho).symm.trans hk, hrest⟩
  unique := fun i hi j hj hki hkj => h.unique i hi j hj ((hI i hi).trans hki) ((hI j hj).trans hkj)
  values := h.values
  journal := by
    have heq : expectedPostings keepO' keepI' outputs inputs =
        expectedPostings keepO keepI outputs inputs := by
      unfold expectedPostings Table.select
      rw [List.filter_congr hO, List.filter_congr hI]
    rw [heq]
    exact h.journal

theorem Booked.exists_output (h : Booked keepO keepI outputs inputs balanceChanges) :
    ∀ i ∈ inputs.rows, keepI i = true → ∃ o ∈ outputs.rows, o.id = i.outputId := by
  intro i hi hkeep
  obtain ⟨o, ho, -, hid, -⟩ := h.refs i hi hkeep
  exact ⟨o, ho, hid⟩

theorem Booked.updateOutputs {p : OutputRow → Bool} {f : OutputRow → OutputRow}
    (h : Booked keepO keepI outputs inputs balanceChanges) (hf : KeepsCoins keepO p f) :
    Booked keepO keepI (outputs.updateWhere p f hf.id) inputs balanceChanges where
  refs := fun i hi hkeep => by
    obtain ⟨o, ho, hk, hid, hacc, hheight⟩ := h.refs i hi hkeep
    obtain ⟨o', ho', hid', hacc', -, hheight', hk'⟩ := mem_updateOutputs_of_mem hf ho
    exact ⟨o', ho', hk'.trans hk, hid'.trans hid, hacc'.trans hacc, hheight'.trans_le hheight⟩
  unique := h.unique
  values := fun o' ho' => by
    obtain ⟨o, ho, -, -, hvalue, hwallet, -⟩ := mem_updateOutputs hf ho'
    rw [hvalue, hwallet]
    exact h.values o ho
  journal := by
    rw [expectedPostings_updateOutputs hf h.exists_output]
    exact h.journal

/-- Deleting inputs that are not kept. -/
theorem Booked.deleteInputs {p : InputRow → Bool} {f : InputRow → InputRow}
    (h : Booked keepO (fun i => i.active && !p i) outputs inputs balanceChanges) (hdel : ∀ i, (f i).active = false)
    (hf : ∀ i, key (f i) = key i) :
    Booked keepO InputRow.active outputs (inputs.updateWhere p f hf) balanceChanges := by
  have hmem : ∀ i ∈ (inputs.updateWhere p f hf).rows, i.active = true →
      i ∈ inputs.rows ∧ (i.active && !p i) = true := by
    intro i hi hactive
    obtain ⟨hold, hp⟩ := (AutoTable.mem_updateWhere_unmarked (q := fun i => i.active = true)
      (fun i => by simp [hdel i]) hactive hf).mp hi
    exact ⟨hold, by simp [hactive, hp]⟩
  refine ⟨fun i hi hactive => ?_, fun i hi j hj ha ha' => ?_, h.values, ?_⟩
  · exact h.refs i (hmem i hi hactive).1 (hmem i hi hactive).2
  · exact h.unique i (hmem i hi ha).1 j (hmem j hj ha').1 (hmem i hi ha).2 (hmem j hj ha').2
  · have hselect : (inputs.updateWhere p f hf).select InputRow.active =
        inputs.select (fun i => i.active && !p i) := by
      refine (Table.select_updateWhere_unmarked hdel hf).trans ?_
      rw [Table.select, List.filter_filter]
      exact List.filter_congr (fun i _ => Bool.and_comm _ _)
    have hjournal := h.journal
    unfold expectedPostings at hjournal ⊢
    rw [← hselect] at hjournal
    exact hjournal

/-- What the reversal of a change with the posting `target` must be. -/
structure Reverses (reversal : Option Id → BalanceChange) (target : BalancePosting) : Prop where
  isReversal : ∀ k, (reversal k).isReversal = true
  reversalOf : ∀ k, (reversal k).reversalOfBalanceChangeId = k
  isReversed : ∀ k, (reversal k).isReversed = false
  owner : ∀ k, (reversal k).accountId = target.owner
  credit : ∀ k, asI64 (reversal k).balanceCredit = target.debit
  debit : ∀ k, asI64 (reversal k).balanceDebit = target.credit

/-- A lookup that finds the one change with the posting `target`, and the reversal of it. -/
theorem reverseBalanceChange_sound {db : Db} {p : BalanceChangeRow → Bool}
    {reversal : Option Id → BalanceChange} {target : BalancePosting}
    {expected rest : List BalancePosting} (h : Journal.Sound db.balanceChanges expected)
    (hperm : expected.Perm (target :: rest)) (hrev : Reverses reversal target)
    (hp : ∀ b : BalanceChangeRow, Entry.posting b = target → p b = true)
    (hfind : ∀ x ∈ expected, ∀ b : BalanceChangeRow, Entry.posting b = x → p b = true → x = target) :
    Journal.Sound
      (db.reverseBalanceChange (db.lastActiveBalanceChangeId p) reversal).balanceChanges rest := by
  have hactive_iff : ∀ b : BalanceChangeRow, Journal.active b = b.active := fun _ => rfl
  obtain ⟨b₀, hb₀, hactive₀, hpost₀⟩ :=
    h.mem_expected.mp (hperm.mem_iff.mpr (List.mem_cons_self (a := target)))
  obtain ⟨id, hlookup⟩ := lastActiveBalanceChangeId_isSome hb₀ (hp b₀ hpost₀)
    ((hactive_iff b₀).symm.trans hactive₀)
  obtain ⟨b, hb, rfl, hpb, hactive⟩ := lastActiveBalanceChangeId_some hlookup
  have hpost : Entry.posting b = target :=
    hfind _ (h.mem_expected.mpr ⟨b, hb, hactive, rfl⟩) b rfl hpb
  rw [hlookup]
  refine Journal.Sound.reverse (f := fun b : BalanceChangeRow => { b with isReversed := true })
    (m := fun k => (reversal (some b.id)).toRow k) h
    ⟨fun _ => rfl, fun _ => rfl, fun _ => rfl, fun _ => rfl, fun _ => rfl⟩ hb hactive
    (fun _ => rfl) (fun k => ?_) (fun k => hrev.isReversed _) (hpost ▸ hperm)
  rw [Journal.undoes_iff, hpost]
  exact ⟨hrev.isReversal _, hrev.reversalOf _, hrev.owner _, hrev.credit _, hrev.debit _⟩

/-- Keeping fewer inputs, their postings taken off the journal. -/
theorem Booked.restrict {balanceChanges' : AutoTable BalanceChangeRow}
    (h : Booked keepO keepI outputs inputs balanceChanges)
    (hO : ∀ i ∈ inputs.rows, keepI' i = true → ∀ o ∈ outputs.rows, o.id = i.outputId →
      keepO o = true → keepO' o = true)
    (hI : ∀ i ∈ inputs.rows, keepI' i = true → keepI i = true)
    (hjournal : Journal.Sound balanceChanges' (expectedPostings keepO' keepI' outputs inputs)) :
    Booked keepO' keepI' outputs inputs balanceChanges' where
  refs := fun i hi hkeep => by
    obtain ⟨o, ho, hk, hid, hrest⟩ := h.refs i hi (hI i hi hkeep)
    exact ⟨o, ho, hO i hi hkeep o ho hid hk, hid, hrest⟩
  unique := fun i hi j hj hki hkj => h.unique i hi j hj (hI i hi hki) (hI j hj hkj)
  values := h.values
  journal := hjournal

/-- The loop of `soft_delete_inputs_from_height` at one kept input. -/
theorem Booked.reverseInput {db : Db} {i : InputRow} {o : OutputRow}
    (h : Booked keepO keepI db.outputs db.inputs db.balanceChanges) (height : Nat) (now : Timestamp)
    (hi : i ∈ db.inputs.rows) (hkeep : keepI i = true) (ho : o ∈ db.outputs.rows) (hid : o.id = i.outputId)
    (hrest : ∀ j ∈ db.inputs.rows, keepI' j = (!(j.id == i.id) && keepI j)) :
    Booked keepO keepI' db.outputs db.inputs
      (db.reverseBalanceChange (db.getBalanceChangeIdByInput i.id)
        (inputReversal i.accountId height now ⟨i.id, o.id, o.value⟩)).balanceChanges := by
  have hvalue := (h.values o ho).2
  refine h.restrict (fun _ _ _ _ _ _ hk => hk) (fun j hj hk => ?_) ?_
  · rw [hrest j hj] at hk
    exact (Bool.and_eq_true_iff.mp hk).2
  · refine reverseBalanceChange_sound h.journal (expectedPostings_dropInput hi hkeep hrest) ?_ ?_ ?_
    · rw [spentValue_eq ho hid]
      refine ⟨fun _ => rfl, fun _ => rfl, fun _ => rfl, fun _ => rfl, fun _ => ?_, fun _ => rfl⟩
      show asI64 (asU64 o.value) = o.value
      rw [hvalue, asI64_asU64_asI64]
    · rintro b hb
      have hcause := congrArg (fun p => p.cause.2) hb
      simpa [Entry.posting, InputRow.debitPosting] using hcause
    · intro x hx b hb hp
      have hcause : x.cause.2 = some i.id := by rw [← hb]; simpa [Entry.posting] using hp
      rcases List.mem_append.mp hx with hx | hx
      · obtain ⟨o', -, rfl⟩ := List.mem_map.mp hx
        cases hcause
      · obtain ⟨j, hj, rfl⟩ := List.mem_map.mp hx
        obtain rfl : j = i := db.inputs.eq_of_key_eq (Table.mem_select.mp hj).1 hi
          (Option.some.inj hcause)
        rfl

/-- The loop of `soft_delete_outputs_from_height` at one kept output that no kept input spends. -/
theorem Booked.reverseOutput {db : Db} {o : OutputRow}
    (h : Booked keepO keepI db.outputs db.inputs db.balanceChanges) (height : Nat) (now : Timestamp)
    (ho : o ∈ db.outputs.rows) (hkeep : keepO o = true)
    (hunspent : ∀ i ∈ db.inputs.rows, keepI i = true → i.outputId ≠ o.id)
    (hrest : ∀ x ∈ db.outputs.rows, keepO' x = (!(x.id == o.id) && keepO x)) :
    Booked keepO' keepI db.outputs db.inputs
      (db.reverseBalanceChange (db.getBalanceChangeIdByOutput o.id)
        (outputReversal o.accountId height now ⟨o.id, o.value⟩)).balanceChanges := by
  have hvalue := (h.values o ho).2
  refine h.restrict (fun i hi hk x hx hid hkx => ?_) (fun _ _ hk => hk) ?_
  · rw [hrest x hx, hkx, Bool.and_true, Bool.not_eq_true', beq_eq_false_iff_ne]
    exact fun he => hunspent i hi hk (hid.symm.trans he)
  · refine reverseBalanceChange_sound h.journal (expectedPostings_dropOutput ho hkeep hrest) ?_ ?_ ?_
    · refine ⟨fun _ => rfl, fun _ => rfl, fun _ => rfl, fun _ => rfl, fun _ => rfl, fun _ => ?_⟩
      show asI64 (asU64 o.value) = o.value
      rw [hvalue, asI64_asU64_asI64]
    · intro b hb
      have hcause := congrArg (fun p => p.cause.1) hb
      simpa [Entry.posting, OutputRow.creditPosting] using hcause
    · intro x hx b hb hp
      have hcause : x.cause.1 = some o.id := by rw [← hb]; simpa [Entry.posting] using hp
      rcases List.mem_append.mp hx with hx | hx
      · obtain ⟨o', ho', rfl⟩ := List.mem_map.mp hx
        obtain rfl : o' = o := db.outputs.eq_of_key_eq (Table.mem_select.mp ho').1 ho
          (Option.some.inj hcause)
        rfl
      · obtain ⟨j, -, rfl⟩ := List.mem_map.mp hx
        cases hcause

theorem HeightsKnown.updateOutputs {known : AccountId → Int → Prop}
    {outputs : AutoTable OutputRow} {p : OutputRow → Bool} {f : OutputRow → OutputRow}
    (h : HeightsKnown known outputs) (hf : KeepsCoins OutputRow.active p f) :
    HeightsKnown known (outputs.updateWhere p f hf.id) := by
  intro o' ho' hactive
  obtain ⟨o, ho, -, hacc, -, -, hheight, hkeep⟩ := mem_updateOutputs hf ho'
  rw [hacc, hheight]
  exact h o ho (hkeep.symm.trans hactive)

theorem LedgerBooked.updateOutputs {L : Ledger} {p : OutputRow → Bool} {f : OutputRow → OutputRow}
    (h : LedgerBooked L) (hf : KeepsCoins OutputRow.active p f) :
    LedgerBooked { L with outputs := L.outputs.updateWhere p f hf.id } :=
  ⟨h.1.updateOutputs hf, h.2.updateOutputs hf⟩

end Statements

/-! ## Blocks -/

section Blocks

variable (block : BlockScanResult) (accountId : AccountId)

/-- The books while a block is processed: its own height counts as known. -/
structure MidBlock (L : Ledger) : Prop where
  booked : Booked OutputRow.active InputRow.active L.outputs L.inputs L.balanceChanges
  heights : HeightsKnown (fun a h => Recorded L.scannedTipBlocks a h ∨
    a = accountId ∧ h = asI64 block.height) L.outputs
  aboveTip : ∀ b ∈ L.scannedTipBlocks.rows, b.accountId = accountId → b.height < asI64 block.height

/-- The hashes still to be spent are distinct, and their outputs are unspent. -/
def ToSpend (hashes : List FixedHash) (L : Ledger) : Prop :=
  hashes.Nodup ∧ ∀ o ∈ L.outputs.rows, o.active = true → o.accountId = accountId →
    o.outputHash ∈ hashes → ∀ i ∈ L.inputs.rows, i.active = true → i.outputId ≠ o.id

variable {block accountId}

theorem MidBlock.le_height {L : Ledger} (h : MidBlock block accountId L) {o : OutputRow}
    (ho : o ∈ L.outputs.rows) (hactive : o.active = true) (hacc : o.accountId = accountId) :
    o.minedInBlockHeight ≤ asI64 block.height := by
  rcases h.heights o ho hactive with ⟨b, hb, hbacc, hheight⟩ | ⟨-, hheight⟩
  · exact hheight ▸ le_of_lt (h.aboveTip b hb (hbacc.trans hacc))
  · exact le_of_eq hheight

/-- An output found in the block, and its credit. -/
theorem MidBlock.credit {db db' : Db} {ext : Externals} {key : PrivateKey}
    {w : FixedHash × WalletOutput × Nat} {memo : MemoInfo} {payref : PaymentReference}
    {now : Timestamp} {id : Id} (h : MidBlock block accountId db.ledger)
    (hvalue : w.2.1.value < 2 ^ 63)
    (hins : db.insertOutput ext accountId key w.1 w.2.1 block.height block.blockHash
      block.minedTimestamp memo.parsed memo.hex payref w.2.1.isBurned = .ok (id, db')) :
    MidBlock block accountId (db'.insertBalanceChange
      (makeBalanceChangeForOutput accountId id block.minedTimestamp block.height w.2.1
        now)).2.ledger := by
  obtain ⟨timestamp, -, -, rfl, rfl⟩ := insertOutput_ok hins
  have hpos : 0 ≤ asI64 w.2.1.value := by rw [asI64_of_lt hvalue]; omega
  refine ⟨⟨?_, h.booked.unique, ?_, ?_⟩, ?_, h.aboveTip⟩
  · intro i hi hactive
    obtain ⟨o, ho, hrest⟩ := h.booked.refs i hi hactive
    exact ⟨o, List.mem_append_left _ ho, hrest⟩
  · intro o ho
    rcases (AutoTable.mem_insert (fun _ => rfl)).mp ho with ho | rfl
    · exact h.booked.values o ho
    · exact ⟨hpos, rfl⟩
  · refine (h.booked.journal.post (m := (makeBalanceChangeForOutput accountId
        (db.outputs.seq + 1) block.minedTimestamp block.height w.2.1 now).toRow)
      (fun _ => rfl) (fun _ => rfl) (fun _ => ⟨hpos, le_of_eq rfl⟩)).perm ?_
    exact expectedPostings_insertOutput (m := newOutputRow ext accountId key w.1 w.2.1 block.height
      block.blockHash timestamp memo.parsed memo.hex payref w.2.1.isBurned) rfl
      h.booked.exists_output (fun _ => rfl)
  · intro o ho hactive
    rcases List.mem_append.mp ho with ho | ho
    · exact h.heights o ho hactive
    · cases List.mem_singleton.mp ho
      exact Or.inr ⟨rfl, rfl⟩

/-- An output spent in the block, its input and its debit. -/
theorem MidBlock.debit {db : Db} {hash : FixedHash} {rest : List FixedHash}
    {info : DbWalletOutput} {timestamp : Timestamp} {inputId : Id}
    (h : MidBlock block accountId db.ledger) (now : Timestamp) (hspend : ToSpend accountId (hash :: rest) db.ledger)
    (hinfo : db.getOutputInfoByHashForAccount accountId hash = some info)
    (hid : (db.insertOrIgnoreInput accountId info.id block.height block.blockHash
      timestamp).getActiveInputId info.id = .ok inputId) :
    let db' := ((db.insertOrIgnoreInput accountId info.id block.height block.blockHash
      timestamp).insertBalanceChange
        (makeBalanceChangeForInput accountId inputId info.output.value block now)).2
    MidBlock block accountId db'.ledger ∧ ToSpend accountId rest db'.ledger := by
  obtain ⟨o, ho, hactive, hacc, hhash, rfl⟩ := getOutputInfoByHashForAccount_some hinfo
  have hunspent : ∀ i ∈ db.inputs.rows, i.active = true → i.outputId ≠ o.id :=
    hspend.2 o ho hactive hacc (by simp [hhash])
  rcases getActiveInputId_insertOrIgnoreInput hid with ⟨⟨i, hi, hia, hio⟩, -⟩ | ⟨-, rfl, heq⟩
  · exact absurd hio (hunspent i hi hia)
  have hvalues := h.booked.values o ho
  have hpos : 0 ≤ asI64 o.walletOutput.value := hvalues.2 ▸ hvalues.1
  simp only [heq]
  refine ⟨⟨⟨?_, ?_, h.booked.values, ?_⟩, h.heights, h.aboveTip⟩, ?_⟩
  · intro i hi hia
    rcases (AutoTable.mem_insert (fun _ => rfl)).mp hi with hi | rfl
    · exact h.booked.refs i hi hia
    · exact ⟨o, ho, hactive, rfl, hacc, h.le_height ho hactive hacc⟩
  · intro i hi j hj hia hja hij
    rcases (AutoTable.mem_insert (fun _ => rfl)).mp hi with hi | rfl <;>
      rcases (AutoTable.mem_insert (fun _ => rfl)).mp hj with hj | rfl
    · exact h.booked.unique i hi j hj hia hja hij
    · exact absurd hij (hunspent i hi hia)
    · exact absurd hij.symm (hunspent j hj hja)
    · rfl
  · refine (h.booked.journal.post (m := (makeBalanceChangeForInput accountId
        (db.inputs.seq + 1) o.walletOutput.value block now).toRow)
      (fun _ => rfl) (fun _ => rfl) (fun _ => ⟨le_of_eq rfl, hpos⟩)).perm (List.Perm.of_eq ?_)
    refine Eq.trans ?_ (expectedPostings_insertInput (m := newInputRow accountId o.id block.height
      block.blockHash timestamp) ho rfl rfl (fun _ => rfl)).symm
    rw [hvalues.2]
    rfl
  · refine ⟨(List.nodup_cons.mp hspend.1).2, fun x hx hxa hxacc hxhash i hi hia => ?_⟩
    rcases (AutoTable.mem_insert (fun _ => rfl)).mp hi with hi | rfl
    · exact hspend.2 x hx hxa hxacc (List.mem_cons_of_mem _ hxhash) i hi hia
    · intro hxid
      obtain rfl : o = x := db.outputs.eq_of_key_eq ho hx hxid
      exact (List.nodup_cons.mp hspend.1).1 (hhash ▸ hxhash)

/-- A new output is referred to by no input. -/
theorem ToSpend.insertOutput {L : Ledger} {hashes : List FixedHash} {mk : Id → OutputRow}
    (h : ToSpend accountId hashes L) (hbooked : Booked OutputRow.active InputRow.active L.outputs L.inputs L.balanceChanges)
    (hmk : ∀ k, key (mk k) = k) :
    ToSpend accountId hashes { L with outputs := L.outputs.insert mk hmk } := by
  refine ⟨h.1, fun o ho hactive hacc hhash i hi hia => ?_⟩
  rcases (AutoTable.mem_insert hmk).mp ho with ho | rfl
  · exact h.2 o ho hactive hacc hhash i hi hia
  · intro heq
    obtain ⟨x, hx, -, hid, -⟩ := hbooked.refs i hi hia
    have hnew : (mk (L.outputs.seq + 1)).id = L.outputs.seq + 1 := hmk _
    exact L.outputs.fresh hx (hid.trans (heq.trans hnew))

theorem ToSpend.setStatus {L : Ledger} {hashes : List FixedHash} {p : OutputRow → Bool}
    {status : OutputStatus} (h : ToSpend accountId hashes L) :
    ToSpend accountId hashes
      { L with outputs := L.outputs.updateWhere p (fun o => { o with status }) } := by
  refine ⟨h.1, fun o ho hactive hacc hhash => ?_⟩
  obtain ⟨x, hx, rfl⟩ := (AutoTable.mem_updateWhere _).mp ho
  by_cases hp : p x
  · simp only [hp, if_true] at hactive hacc hhash ⊢
    exact h.2 x hx hactive hacc hhash
  · simp only [hp] at hactive hacc hhash ⊢
    exact h.2 x hx hactive hacc hhash

theorem ledgerBooked_blockRule (env : ScanEnv) (bp : BlockProcessor) (now : Timestamp)
    (block : BlockScanResult) (accountId : AccountId) :
    BlockRule env bp now block accountId
      (fun rest L => (MidBlock block accountId L ∧ ToSpend accountId block.inputs L) ∧
        ∀ w ∈ rest, w.2.1.value < 2 ^ 63)
      (fun rest L => MidBlock block accountId L ∧ ToSpend accountId rest L) LedgerBooked where
  skip := fun w rest L _ h => ⟨h.1, fun x hx => h.2 x (List.mem_cons_of_mem _ hx)⟩
  credit := fun w rest key memo payref id db db' _ hins h => by
    refine ⟨⟨h.1.1.credit (h.2 w List.mem_cons_self) hins, ?_⟩,
      fun x hx => h.2 x (List.mem_cons_of_mem _ hx)⟩
    obtain ⟨timestamp, -, -, -, rfl⟩ := insertOutput_ok hins
    exact h.1.2.insertOutput h.1.1.booked (fun _ => rfl)
  outputsDone := fun _ h => h.1
  ignore := fun hash rest db _ h =>
    ⟨h.1, (List.nodup_cons.mp h.2.1).2, fun o ho hactive hacc hhash =>
      h.2.2 o ho hactive hacc (List.mem_cons_of_mem _ hhash)⟩
  debit := fun hash rest info timestamp inputId db hinfo hid h => by
    obtain ⟨hmid, hspend⟩ := h.1.debit now h.2 hinfo hid
    have hf : KeepsCoins OutputRow.active (fun o => o.id == info.id)
        (fun o => { o with status := .spent }) :=
      ⟨fun _ => rfl, fun _ => rfl, fun _ => rfl, fun _ => rfl, fun _ => rfl, fun _ _ => rfl⟩
    exact ⟨⟨hmid.booked.updateOutputs hf, hmid.heights.updateOutputs hf, hmid.aboveTip⟩,
      hspend.setStatus⟩
  record := fun db h => by
    have hrecorded : ∀ a k, Recorded db.scannedTipBlocks a k ∨
        a = accountId ∧ k = asI64 block.height →
        Recorded (db.insertScannedTipBlock accountId (asI64 block.height)
          block.blockHash).scannedTipBlocks a k := by
      intro a k hk
      unfold Db.insertScannedTipBlock
      split
      · next hex =>
          obtain ⟨b, hb, hp⟩ := Table.exists?_eq_true.mp hex
          simp only [Bool.and_eq_true, beq_iff_eq] at hp
          rcases hk with hk | ⟨rfl, rfl⟩
          · exact hk
          · exact ⟨b, hb, hp.1⟩
      · rcases hk with ⟨b, hb, hk⟩ | ⟨rfl, rfl⟩
        · exact ⟨b, (AutoTable.mem_insert (fun _ => rfl)).mpr (Or.inl hb), hk⟩
        · exact ⟨_, (AutoTable.mem_insert (fun _ => rfl)).mpr (Or.inr rfl), rfl, rfl⟩
    have hframe : (db.insertScannedTipBlock accountId (asI64 block.height) block.blockHash).ledger =
        { db.ledger with
          scannedTipBlocks := (db.insertScannedTipBlock accountId (asI64 block.height)
            block.blockHash).scannedTipBlocks } := by
      unfold Db.insertScannedTipBlock
      split <;> rfl
    rw [hframe]
    exact ⟨h.1.booked,
      fun o ho hactive => hrecorded _ _ (h.1.heights o ho hactive)⟩
  confirm := fun db hash h => by
    have hf : KeepsCoins OutputRow.active (fun o => o.outputHash == hash)
        (fun o => { o with
          confirmedHeight := some (asI64 block.height)
          confirmedHash := some block.blockHash }) :=
      ⟨fun _ => rfl, fun _ => rfl, fun _ => rfl, fun _ => rfl, fun _ => rfl, fun _ _ => rfl⟩
    exact h.updateOutputs hf

end Blocks

/-! ## Rollbacks -/

section Rollbacks

variable (accountId : AccountId) (height : Nat)

/-- The undeleted inputs, less those that the loop has reversed already. -/
def keptInput (rest : List InputToDelete) (i : InputRow) : Bool :=
  i.active && !(i.activeFrom accountId height && !rest.any (fun row => row.inputId == i.id))

/-- The undeleted outputs, less those that the loop has reversed already. -/
def keptOutput (rest : List OutputToDelete) (o : OutputRow) : Bool :=
  o.active && !(o.activeFrom accountId height && !rest.any (fun row => row.id == o.id))

/-- The rows that the loop over the inputs still has to go through. -/
def InputsToDo (L : Ledger) (rest : List InputToDelete) : Prop :=
  (rest.map InputToDelete.inputId).Nodup ∧ ∀ row ∈ rest, ∃ i ∈ L.inputs.rows,
    ∃ o ∈ L.outputs.rows, i.activeFrom accountId height = true ∧ o.id = i.outputId ∧
      row = ⟨i.id, o.id, o.value⟩

/-- The rows that the loop over the outputs still has to go through. -/
def OutputsToDo (L : Ledger) (rest : List OutputToDelete) : Prop :=
  (rest.map OutputToDelete.id).Nodup ∧ ∀ row ∈ rest, ∃ o ∈ L.outputs.rows,
    o.activeFrom accountId height = true ∧ row = ⟨o.id, o.value⟩

/-- The undeleted inputs of the account are below `height`. -/
def InputsBelow (L : Ledger) : Prop :=
  ∀ i ∈ L.inputs.rows, i.active = true → i.accountId = accountId → i.minedInBlockHeight < asI64 height

/-- The undeleted outputs of the account are below `height`. -/
def OutputsBelow (L : Ledger) : Prop :=
  ∀ o ∈ L.outputs.rows, o.active = true → o.accountId = accountId →
    o.minedInBlockHeight < asI64 height

/-- The books at each point of `rollback_from_height`. -/
def rollbackBooks : RollbackStage → Ledger → Prop
  | .start, L | .cancelled, L | .tipsDeleted, L | .done, L => LedgerBooked L
  | .inputs rest, L =>
    (Booked OutputRow.active (keptInput accountId height rest) L.outputs L.inputs L.balanceChanges ∧
      HeightsKnown (Recorded L.scannedTipBlocks) L.outputs) ∧ InputsToDo accountId height L rest
  | .inputsDeleted, L => LedgerBooked L ∧ InputsBelow accountId height L
  | .outputs rest, L =>
    (Booked (keptOutput accountId height rest) InputRow.active L.outputs L.inputs L.balanceChanges ∧
      HeightsKnown (Recorded L.scannedTipBlocks) L.outputs) ∧ InputsBelow accountId height L ∧
      OutputsToDo accountId height L rest
  | .outputsDeleted, L => LedgerBooked L ∧ OutputsBelow accountId height L

variable {accountId height}

theorem keptInput_eq_false_of_mem {rest : List InputToDelete} {i : InputRow}
    (h : keptInput accountId height rest i = false) (hactive : i.active = true) :
    i.activeFrom accountId height = true ∧ ∀ row ∈ rest, row.inputId ≠ i.id := by
  simpa [keptInput, hactive] using h

theorem getInputsToDelete_inputIds (db : Db) :
    ((db.getInputsToDelete accountId height).map InputToDelete.inputId).Sublist
      ((db.inputs.select (InputRow.activeFrom accountId height)).map key) := by
  unfold Db.getInputsToDelete
  induction db.inputs.select (InputRow.activeFrom accountId height) with
  | nil => exact List.Sublist.slnil
  | cons i rest ih =>
      rw [List.filterMap_cons]
      cases db.outputs.get? i.outputId with
      | none => exact ih.cons _
      | some o => exact ih.cons_cons i.id

theorem inputsToDo_getInputsToDelete (db : Db) :
    InputsToDo accountId height db.ledger (db.getInputsToDelete accountId height) := by
  refine ⟨(db.inputs.nodup_select _).sublist (getInputsToDelete_inputIds db), fun row hrow => ?_⟩
  obtain ⟨i, hi, hjoin⟩ := List.mem_filterMap.mp hrow
  obtain ⟨hi, hp⟩ := Table.mem_select.mp hi
  obtain ⟨o, hget, rfl⟩ := Option.map_eq_some_iff.mp hjoin
  obtain ⟨ho, hid⟩ := Table.get?_eq_some.mp hget
  exact ⟨i, hi, o, ho, hp, hid, rfl⟩

/-- Every undeleted input has an output to join with, so the loop starts from all that will be
    deleted. -/
theorem keptInput_getInputsToDelete {db : Db} (h : LedgerBooked db.ledger) :
    ∀ i ∈ db.inputs.rows,
      i.active = keptInput accountId height (db.getInputsToDelete accountId height) i := by
  intro i hi
  by_cases hactive : i.active = true
  swap
  · simp [keptInput, hactive]
  rw [hactive]
  by_contra hk
  obtain ⟨hfrom, hnone⟩ := keptInput_eq_false_of_mem (by simpa using Ne.symm hk) hactive
  obtain ⟨o, ho, hid⟩ := h.1.exists_output i hi hactive
  refine hnone ⟨i.id, o.id, o.value⟩ (List.mem_filterMap.mpr ⟨i, ?_, ?_⟩) rfl
  · exact Table.mem_select.mpr ⟨hi, hfrom⟩
  · have hget : db.outputs.get? i.outputId = some o := Table.get?_eq_some.mpr ⟨ho, hid⟩
    rw [hget]
    rfl

theorem outputsToDo_getOutputsToDelete (db : Db) :
    OutputsToDo accountId height db.ledger (db.getOutputsToDelete accountId height) := by
  refine ⟨?_, fun row hrow => ?_⟩
  · have hids : (db.getOutputsToDelete accountId height).map OutputToDelete.id =
        (db.outputs.select (OutputRow.activeFrom accountId height)).map key := by
      rw [Db.getOutputsToDelete, List.map_map]
      rfl
    rw [hids]
    exact db.outputs.nodup_select _
  · obtain ⟨o, ho, rfl⟩ := List.mem_map.mp hrow
    obtain ⟨ho, hp⟩ := Table.mem_select.mp ho
    exact ⟨o, ho, hp, rfl⟩

theorem keptOutput_getOutputsToDelete (db : Db) :
    ∀ o ∈ db.outputs.rows,
      o.active = keptOutput accountId height (db.getOutputsToDelete accountId height) o := by
  intro o ho
  cases hfrom : o.activeFrom accountId height with
  | false => simp [keptOutput, hfrom]
  | true =>
      have hmem : (⟨o.id, o.value⟩ : OutputToDelete) ∈ db.getOutputsToDelete accountId height :=
        List.mem_map.mpr ⟨o, Table.mem_select.mpr ⟨ho, hfrom⟩, rfl⟩
      have hany : (db.getOutputsToDelete accountId height).any (fun row => row.id == o.id) = true :=
        List.any_eq_true.mpr ⟨_, hmem, by simp⟩
      simp [keptOutput, hany]

/-- Once a row is taken off the list, the rows kept are those with other ids. -/
theorem keptInput_cons {row : InputToDelete} {rest : List InputToDelete} {i : InputRow}
    (hfrom : i.activeFrom accountId height = true) (hid : row.inputId = i.id)
    (hnone : ∀ r ∈ rest, r.inputId ≠ i.id) {inputs : AutoTable InputRow} (hi : i ∈ inputs.rows) :
    ∀ j ∈ inputs.rows, keptInput accountId height rest j =
      (!(j.id == i.id) && keptInput accountId height (row :: rest) j) := by
  intro j hj
  by_cases hji : j.id = i.id
  · obtain rfl : j = i := inputs.eq_of_key_eq hj hi hji
    have hany : rest.any (fun r => r.inputId == j.id) = false := by simpa using hnone
    simp [keptInput, hfrom, hany]
  · have hne : (row.inputId == j.id) = false := by rw [hid]; simpa using Ne.symm hji
    simp [keptInput, hji, hne]

theorem keptOutput_cons {row : OutputToDelete} {rest : List OutputToDelete} {o : OutputRow}
    (hfrom : o.activeFrom accountId height = true) (hid : row.id = o.id)
    (hnone : ∀ r ∈ rest, r.id ≠ o.id) {outputs : AutoTable OutputRow} (ho : o ∈ outputs.rows) :
    ∀ x ∈ outputs.rows, keptOutput accountId height rest x =
      (!(x.id == o.id) && keptOutput accountId height (row :: rest) x) := by
  intro x hx
  by_cases hxo : x.id = o.id
  · obtain rfl : x = o := outputs.eq_of_key_eq hx ho hxo
    have hany : rest.any (fun r => r.id == x.id) = false := by simpa using hnone
    simp [keptOutput, hfrom, hany]
  · have hne : (row.id == x.id) = false := by rw [hid]; simpa using Ne.symm hxo
    simp [keptOutput, hxo, hne]

theorem InputsBelow.setInputsDeleted (db : Db) (now : Timestamp) :
    InputsBelow accountId height (db.setInputsDeleted accountId height now).ledger := by
  intro i hi hactive hacc
  have hnot := ((mem_setInputsDeleted_active hactive).mp hi).2
  exact lt_of_not_ge (fun hge => hnot ⟨hacc, hge⟩)

/-- After the outputs are deleted those kept are the undeleted ones, all below `height`. -/
theorem LedgerBooked.setOutputsDeleted {db : Db} {now : Timestamp}
    (h : Booked (keptOutput accountId height []) InputRow.active db.outputs db.inputs
      db.balanceChanges)
    (hheights : HeightsKnown (Recorded db.scannedTipBlocks) db.outputs) :
    LedgerBooked (db.setOutputsDeleted accountId height now).ledger := by
  have hf : KeepsCoins (keptOutput accountId height [])
      (OutputRow.activeFrom accountId height) (fun o => { o with
        deletedAt := some now
        deletedInBlockHeight := some (asI64 height)
        paymentReference := none }) := by
    refine ⟨fun _ => rfl, fun _ => rfl, fun _ => rfl, fun _ => rfl, fun _ => rfl, fun o hp => ?_⟩
    simp [keptOutput, OutputRow.active, hp]
  refine ⟨(h.updateOutputs hf).congr (fun o ho => ?_) (fun _ _ => rfl), fun o ho hactive => ?_⟩
  · cases hactive : o.active with
    | false => simp [keptOutput, hactive]
    | true =>
        have hsurvives := ((mem_setOutputsDeleted_active hactive).mp ho).2.2
        rw [← hactive, keptOutput]
        have hfrom : o.activeFrom accountId height = false := by
          rw [← Bool.not_eq_true, OutputRow.activeFrom_eq_true]
          exact fun hand => hsurvives hand.1
        simp [hfrom]
  · exact hheights o ((mem_setOutputsDeleted_active hactive).mp ho).1 hactive

theorem rollbackBooks_rollbackRule (now : Timestamp) :
    RollbackRule accountId height now (rollbackBooks accountId height) where
  cancel := fun db h => h
  inputs := fun db h =>
    ⟨⟨h.1.congr (fun _ _ => rfl) (keptInput_getInputsToDelete h), h.2⟩,
      inputsToDo_getInputsToDelete db⟩
  reverseInput := fun db row rest h => by
    obtain ⟨⟨hbooked, hheights⟩, hnodup, htodo⟩ := h
    obtain ⟨hrow, hrest⟩ := List.nodup_cons.mp hnodup
    obtain ⟨i, hi, o, ho, hfrom, hid, rfl⟩ := htodo row List.mem_cons_self
    have hnone : ∀ r ∈ rest, r.inputId ≠ i.id := fun r hr he =>
      hrow (List.mem_map.mpr ⟨r, hr, he⟩)
    obtain ⟨⟨hacc, -⟩, hactive⟩ := InputRow.activeFrom_eq_true.mp hfrom
    have hkeep : keptInput accountId height (⟨i.id, o.id, o.value⟩ :: rest) i = true := by
      simp [keptInput, hactive]
    have hbooked' := hbooked.reverseInput height now hi hkeep ho hid
      (keptInput_cons hfrom rfl hnone hi)
    rw [hacc] at hbooked'
    rw [reverseBalanceChange_frame]
    exact ⟨⟨hbooked', hheights⟩, hrest, fun r hr => htodo r (List.mem_cons_of_mem _ hr)⟩
  deleteInputs := fun db h => by
    obtain ⟨⟨hbooked, hheights⟩, -⟩ := h
    refine ⟨⟨?_, hheights⟩, InputsBelow.setInputsDeleted db now⟩
    exact Booked.deleteInputs (hbooked.congr (fun _ _ => rfl)
      (fun i _ => by simp [keptInput])) (fun i => by simp [InputRow.active]) (by intro _; rfl)
  outputs := fun db h =>
    ⟨⟨h.1.1.congr (keptOutput_getOutputsToDelete db) (fun _ _ => rfl), h.1.2⟩, h.2,
      outputsToDo_getOutputsToDelete db⟩
  reverseOutput := fun db row rest h => by
    obtain ⟨⟨hbooked, hheights⟩, hbelow, hnodup, htodo⟩ := h
    obtain ⟨hrow, hrest⟩ := List.nodup_cons.mp hnodup
    obtain ⟨o, ho, hfrom, rfl⟩ := htodo row List.mem_cons_self
    have hnone : ∀ r ∈ rest, r.id ≠ o.id := fun r hr he => hrow (List.mem_map.mpr ⟨r, hr, he⟩)
    obtain ⟨⟨hacc, hheight⟩, hactive⟩ := OutputRow.activeFrom_eq_true.mp hfrom
    have hkeep : keptOutput accountId height (⟨o.id, o.value⟩ :: rest) o = true := by
      simp [keptOutput, hactive]
    -- an input of the output would be as high as it, and those are gone
    have hunspent : ∀ i ∈ db.inputs.rows, i.active = true → i.outputId ≠ o.id := by
      intro i hi hia hio
      obtain ⟨x, hx, -, hxid, hxacc, hle⟩ := hbooked.refs i hi hia
      obtain rfl : x = o := db.outputs.eq_of_key_eq hx ho (hxid.trans hio)
      have hlt := hbelow i hi hia (hxacc.symm.trans hacc)
      omega
    have hbooked' := hbooked.reverseOutput height now ho hkeep
      hunspent (keptOutput_cons hfrom rfl hnone ho)
    rw [hacc] at hbooked'
    rw [reverseBalanceChange_frame]
    exact ⟨⟨hbooked', hheights⟩, hbelow, hrest, fun r hr => htodo r (List.mem_cons_of_mem _ hr)⟩
  deleteOutputs := fun db h => by
    obtain ⟨⟨hbooked, hheights⟩, -⟩ := h
    refine ⟨LedgerBooked.setOutputsDeleted hbooked hheights, fun o ho hactive hacc => ?_⟩
    have hsurvives := ((mem_setOutputsDeleted_active hactive).mp ho).2.2
    exact lt_of_not_ge (fun hge => hsurvives ⟨hacc, hge⟩)
  deleteTips := fun db h => by
    obtain ⟨⟨hbooked, hheights⟩, hbelow⟩ := h
    refine ⟨hbooked, fun o ho hactive => ?_⟩
    obtain ⟨b, hb, hacc, hheight⟩ := hheights o ho hactive
    refine ⟨b, AutoTable.mem_deleteWhere.mpr ⟨hb, ?_⟩, hacc, hheight⟩
    by_cases hba : b.accountId = accountId
    · have hlt := hbelow o ho hactive (hacc.symm.trans hba)
      simp [hba, hheight, hlt]
    · simp [hba]
  reset := fun db h => h

end Rollbacks

/-! ## Balances -/

/-- The value of the undeleted outputs of the account that no undeleted input spends. -/
def Db.unspentValue (db : Db) (accountId : AccountId) : Int :=
  db.outputs.sumWhere (fun o => (o.accountId == accountId && o.active) &&
    !db.inputs.exists? (fun i => i.active && i.outputId == o.id)) (·.value)

def creditSum (rows : List BalanceChangeRow) : Int := (rows.map (·.balanceCredit)).sum

def debitSum (rows : List BalanceChangeRow) : Int := (rows.map (·.balanceDebit)).sum

section Balances

variable {outputs : AutoTable OutputRow} {inputs : AutoTable InputRow}
  {balanceChanges : AutoTable BalanceChangeRow}

/-- The inputs of an account spend, between them, its spent outputs. -/
theorem Booked.sum_spent (h : Booked OutputRow.active InputRow.active outputs inputs balanceChanges)
    (a : AccountId) :
    inputs.sumWhere (fun i => i.accountId == a && i.active) (spentValue outputs) =
      outputs.sumWhere (fun o => (o.accountId == a && o.active) &&
        inputs.exists? (fun i => i.active && i.outputId == o.id)) (·.value) := by
  let spends := inputs.select (fun i => i.accountId == a && i.active)
  let spent := outputs.select (fun o => (o.accountId == a && o.active) &&
    inputs.exists? (fun i => i.active && i.outputId == o.id))
  let valueOf : Id → Int := fun k => ((outputs.get? k).map (·.value)).getD 0
  have hspends : ∀ i, i ∈ spends ↔ i ∈ inputs.rows ∧ i.accountId = a ∧ i.active = true := by
    simp [spends]
  have hspent : ∀ o, o ∈ spent ↔ o ∈ outputs.rows ∧ (o.accountId = a ∧ o.active = true) ∧
      ∃ i ∈ inputs.rows, i.active = true ∧ i.outputId = o.id := by
    simp [spent]
  have hnodup : (spends.map (·.outputId)).Nodup := by
    refine List.Nodup.map_on (fun i hi j hj hij => ?_)
      (List.Nodup.of_map key (inputs.nodup_select _))
    obtain ⟨hi, -, hia⟩ := (hspends i).mp hi
    obtain ⟨hj, -, hja⟩ := (hspends j).mp hj
    exact h.unique i hi j hj hia hja hij
  have hperm : (spends.map (·.outputId)).Perm (spent.map (·.id)) := by
    refine (List.perm_ext_iff_of_nodup hnodup (outputs.nodup_select _)).mpr (fun k => ?_)
    constructor
    · intro hk
      obtain ⟨i, hi, rfl⟩ := List.mem_map.mp hk
      obtain ⟨hi, hacc, hactive⟩ := (hspends i).mp hi
      obtain ⟨o, ho, hoactive, hid, hoacc, -⟩ := h.refs i hi hactive
      exact List.mem_map.mpr ⟨o, (hspent o).mpr
        ⟨ho, ⟨hoacc.trans hacc, hoactive⟩, i, hi, hactive, hid.symm⟩, hid⟩
    · intro hk
      obtain ⟨o, ho, rfl⟩ := List.mem_map.mp hk
      obtain ⟨ho, ⟨hacc, -⟩, i, hi, hactive, hio⟩ := (hspent o).mp ho
      obtain ⟨x, hx, -, hxid, hxacc, -⟩ := h.refs i hi hactive
      obtain rfl : x = o := outputs.eq_of_key_eq hx ho (hxid.trans hio)
      exact List.mem_map.mpr ⟨i, (hspends i).mpr ⟨hi, hxacc.symm.trans hacc, hactive⟩, hio⟩
  have hvalues : spent.map (·.value) = (spent.map (·.id)).map valueOf := by
    rw [List.map_map]
    refine List.map_congr_left (fun o ho => ?_)
    have hget : outputs.get? o.id = some o := Table.get?_eq_some.mpr ⟨((hspent o).mp ho).1, rfl⟩
    simp [valueOf, hget]
  calc (spends.map (spentValue outputs)).sum
      = ((spends.map (·.outputId)).map valueOf).sum := by rw [List.map_map]; rfl
    _ = ((spent.map (·.id)).map valueOf).sum := (hperm.map valueOf).sum_eq
    _ = (spent.map (·.value)).sum := by rw [hvalues]

/-- The active balance is the value of the unspent outputs. -/
theorem Booked.activeBalance (db : Db)
    (h : Booked OutputRow.active InputRow.active db.outputs db.inputs db.balanceChanges)
    (a : AccountId) : Journal.activeBalance db.balanceChanges a = db.unspentValue a := by
  have hcredits : (((db.outputs.select OutputRow.active).map OutputRow.creditPosting).filter
      (fun p => p.owner == a)).map Posting.net =
      (db.outputs.select (fun o => o.accountId == a && o.active)).map (·.value) := by
    rw [List.filter_map, List.map_map, Table.select, List.filter_filter]
    exact List.map_congr_left (fun o _ => by simp [OutputRow.creditPosting, Posting.net])
  have hdebits : ((((db.inputs.select InputRow.active).map
      (fun i => i.debitPosting (spentValue db.outputs i))).filter
      (fun p => p.owner == a)).map Posting.net).sum =
      -db.inputs.sumWhere (fun i => i.accountId == a && i.active) (spentValue db.outputs) := by
    rw [List.filter_map, List.map_map, Table.select, List.filter_filter]
    have hneg := db.inputs.sumWhere_sub (fun i => i.accountId == a && i.active) (fun _ => 0)
      (spentValue db.outputs)
    have hzero : db.inputs.sumWhere (fun i => i.accountId == a && i.active) (fun _ => 0) = 0 := by
      simp [Table.sumWhere]
    rw [hzero, Int.zero_sub] at hneg
    exact hneg
  rw [h.journal.reconciled.activeBalance a]
  unfold expectedPostings
  rw [List.filter_append, List.map_append, List.sum_append, hcredits, hdebits, h.sum_spent a]
  have hsplit := db.outputs.sumWhere_split (fun o => o.accountId == a && o.active)
    (fun o => db.inputs.exists? (fun i => i.active && i.outputId == o.id)) (·.value)
  unfold Db.unspentValue
  change db.outputs.sumWhere (fun o => o.accountId == a && o.active) (·.value) + _ = _
  omega

end Balances

/-! ## Runs -/

/-- The three ways to the balance of an account agree. -/
structure BalancesAgree (db : Db) (a : AccountId) : Prop where
  all : creditSum (db.getAllBalanceChangesByAccountId a) -
    debitSum (db.getAllBalanceChangesByAccountId a) = db.unspentValue a
  active : creditSum (db.getAllActiveBalanceChangesByAccountId a) -
    debitSum (db.getAllActiveBalanceChangesByAccountId a) = db.unspentValue a
  /-- What `get_balance_aggregates_for_account` reports, if it reports. -/
  reported : ∀ agg, db.getBalanceAggregatesForAccount a = .ok agg →
    agg.totalCredits.getD 0 - agg.totalDebits.getD 0 = db.unspentValue a
  /-- It does when both columns sum below `2 ^ 63`. -/
  reports : creditSum (db.getAllBalanceChangesByAccountId a) < 2 ^ 63 →
    debitSum (db.getAllBalanceChangesByAccountId a) < 2 ^ 63 →
    ∃ agg, db.getBalanceAggregatesForAccount a = .ok agg

/-- Every reversed balance change is the target of one reversal, with the amounts exchanged. -/
def ReversedOnce (db : Db) : Prop :=
  ∀ o ∈ db.balanceChanges.rows, o.isReversed = true → ∃ r ∈ db.balanceChanges.rows,
    r.isReversal = true ∧ r.reversalOfBalanceChangeId = some o.id ∧ r.accountId = o.accountId ∧
      r.balanceCredit = o.balanceDebit ∧ r.balanceDebit = o.balanceCredit ∧
      ∀ r' ∈ db.balanceChanges.rows, r'.isReversal = true →
        r'.reversalOfBalanceChangeId = some o.id → r' = r

theorem sum_orderBy {ρ : Type} (k w : ρ → Int) (rows : List ρ) :
    ((orderBy k rows).map w).sum = (rows.map w).sum :=
  ((perm_orderBy k rows).map w).sum_eq

theorem balancesAgree_of_booked {db : Db} (h : LedgerBooked db.ledger) (a : AccountId) :
    BalancesAgree db a := by
  have hactive := h.1.activeBalance db a
  have hbalance := (h.1.journal.balanced a).trans hactive
  have hall : creditSum (db.getAllBalanceChangesByAccountId a) -
      debitSum (db.getAllBalanceChangesByAccountId a) = db.unspentValue a := by
    unfold creditSum debitSum Db.getAllBalanceChangesByAccountId
    rw [sum_orderBy, sum_orderBy, ← hbalance]
    exact (db.balanceChanges.sumWhere_sub _ _ _).symm
  refine ⟨hall, ?_, fun agg hagg => ?_, fun hcredit hdebit => ?_⟩
  · unfold creditSum debitSum Db.getAllActiveBalanceChangesByAccountId
    rw [sum_orderBy, sum_orderBy, ← hactive]
    exact (db.balanceChanges.sumWhere_sub _ _ _).symm
  · obtain ⟨hcredits, hdebits⟩ := getBalanceAggregatesForAccount_ok hagg
    unfold creditSum debitSum Db.getAllBalanceChangesByAccountId at hall
    rw [sum_orderBy, sum_orderBy] at hall
    rw [hcredits, hdebits]
    exact hall
  · unfold creditSum Db.getAllBalanceChangesByAccountId at hcredit
    unfold debitSum Db.getAllBalanceChangesByAccountId at hdebit
    rw [sum_orderBy] at hcredit hdebit
    exact getBalanceAggregatesForAccount_isOk h.1.journal.nonneg hcredit hdebit

theorem reversedOnce_of_booked {db : Db} (h : LedgerBooked db.ledger) : ReversedOnce db := by
  intro o ho hrev
  obtain ⟨r, hr, hund, hunique⟩ := h.1.journal.paired.existsUnique ho hrev
  exact ⟨r, hr, hund.isReversal, hund.reversalOf, hund.owner, hund.credit, hund.debit, hunique⟩

theorem ledgerBooked_empty : LedgerBooked Db.empty.ledger := by
  refine ⟨⟨?_, ?_, ?_, ⟨⟨?_, ?_, ?_, ?_⟩, fun _ => rfl, List.Perm.nil, ?_⟩⟩, ?_⟩ <;>
    intro x hx <;> cases hx

/-- Every well-formed call keeps the books. -/
theorem ledgerBooked_step {env : ScanEnv} {db db' : Db} {a : LedgerAction}
    (h : LedgerBooked db.ledger) (hgood : WellFormedCall db a)
    (hstep : ledgerStep env db a = some db') : LedgerBooked db'.ledger := by
  cases a with
  | processBlock bp block accountId now =>
      obtain ⟨htip, hnodup, hspent, hvalues⟩ := (wellFormedBlock_iff db block accountId).mp hgood
      refine of_runOk_map (Q := LedgerBooked)
        (processBlock_ensures (ledgerBooked_blockRule env bp now block accountId))
        ⟨⟨⟨h.1, ?_, htip⟩, hnodup, hspent⟩, hvalues⟩ hstep
      exact fun o ho hactive => Or.inl (h.2 o ho hactive)
  | lockOutput outputId req now =>
      cases hstep
      have hf : KeepsCoins OutputRow.active (fun o => o.id == outputId && o.status == .unspent)
          (fun o => { o with
            status := .locked, lockedByRequestId := some req, lockedAt := some now }) :=
        ⟨fun _ => rfl, fun _ => rfl, fun _ => rfl, fun _ => rfl, fun _ => rfl, fun _ _ => rfl⟩
      exact h.updateOutputs hf
  | unlockOutputsForRequest req =>
      cases hstep
      have hf : KeepsCoins OutputRow.active
          (fun o => o.lockedByRequestId == some req && o.status == .locked)
          (fun o => { o with status := .unspent, lockedAt := none, lockedByRequestId := none }) :=
        ⟨fun _ => rfl, fun _ => rfl, fun _ => rfl, fun _ => rfl, fun _ => rfl, fun _ _ => rfl⟩
      exact h.updateOutputs hf
  | rollbackFromHeight accountId height webhookConfig now =>
      exact of_runOk_map (P := LedgerBooked) (Q := LedgerBooked)
        (rollbackFromHeight_ensures (rollbackBooks_rollbackRule now) webhookConfig) h hstep

/-- After every run of well-formed calls from the empty database, the balance over all changes, the
    balance over the active ones and the value of the unspent outputs agree for every account, and
    every reversed change is undone once. -/
theorem ledger_conserved (env : ScanEnv) (as : List LedgerAction) (db : Db)
    (hgood : Transition.Along (ledgerStep env) WellFormedCall Db.empty as)
    (hrun : Transition.run (ledgerStep env) Db.empty as = some db) :
    (∀ a, BalancesAgree db a) ∧ ReversedOnce db := by
  have hbooked : LedgerBooked db.ledger :=
    Transition.inv_of_run (I := fun db => LedgerBooked db.ledger)
      (fun _ _ _ h hg hstep => ledgerBooked_step h hg hstep) ledgerBooked_empty hgood hrun
  exact ⟨balancesAgree_of_booked hbooked, reversedOnce_of_booked hbooked⟩

/-- Two outputs, one of them spent; a rollback of both blocks; the first mined again. -/
def reminedAfterRollback : List LedgerAction :=
  let bp := BlockProcessor.withEventSender [(1, 7)] 3
  let coin (hash : FixedHash) (value : MicroMinotari) : FixedHash × WalletOutput × Nat :=
    (hash, { outputHash := hash, value }, 0)
  [.processBlock bp ⟨1, 101, [coin 500 10, coin 501 5], [], 1000⟩ 1 1000,
    .processBlock bp ⟨2, 102, [coin 502 3], [500], 1120⟩ 1 1120,
    .rollbackFromHeight 1 1 none 1200,
    .processBlock bp ⟨1, 201, [coin 500 10], [], 1240⟩ 1 1240]

theorem reminedAfterRollback_conserved :
    ∃ db, Transition.run (ledgerStep plainEnv) Db.empty reminedAfterRollback = some db ∧
      db.unspentValue 1 = 10 ∧ db.balanceChanges.rows.length = 9 ∧
      (∀ a, BalancesAgree db a) ∧ ReversedOnce db := by
  obtain ⟨db, hrun, hq⟩ := Transition.exists_run_of_any (f := ledgerStep plainEnv) (s := Db.empty)
    (l := reminedAfterRollback)
    (q := fun db => decide (db.unspentValue 1 = 10 ∧ db.balanceChanges.rows.length = 9))
    (by decide +kernel)
  obtain ⟨hvalue, hlength⟩ := of_decide_eq_true hq
  exact ⟨db, hrun, hvalue, hlength,
    ledger_conserved plainEnv reminedAfterRollback db (by decide +kernel) hrun⟩

end MinotariWallet
