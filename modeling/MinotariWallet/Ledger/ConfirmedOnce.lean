import MinotariWallet.Ledger.Confirmed

set_option autoImplicit false

/-! # How often outputs are confirmed

`process_confirmations` selects the unconfirmed outputs that are deep enough, and marks them by
their hashes. An undeleted row is the only one with its hash, so it is marked in the first block
that is high enough above it, and one event is stored. -/

namespace MinotariWallet

open Sql Exec

/-! ## The events of an output -/

/-- The event says that the output is confirmed. -/
def WalletEventType.confirms (outputHash : FixedHash) : WalletEventType → Bool
  | .outputConfirmed hash _ _ _ _ => hash == outputHash
  | _ => false

/-- How many `OutputConfirmed` events of the account the database holds for the output. -/
def Db.confirmations (db : Db) (accountId : AccountId) (outputHash : FixedHash) : Nat :=
  db.events.rows.countP (fun e => e.accountId == accountId && e.data.confirms outputHash)

theorem confirmations_insertWalletEvent (db : Db) (accountId : AccountId) (event : WalletEvent)
    (account : AccountId) (outputHash : FixedHash) :
    (db.insertWalletEvent accountId event).2.confirmations account outputHash =
      db.confirmations account outputHash +
        if accountId = account ∧ event.eventType.confirms outputHash then 1 else 0 := by
  simp [Db.confirmations, Db.insertWalletEvent, AutoTable.insert, List.countP_append,
    List.countP_singleton]

/-- An event of another kind. -/
theorem confirmations_insertOther {db : Db} {accountId : AccountId} {event : WalletEvent}
    (h : ∀ outputHash, event.eventType.confirms outputHash = false) :
    (db.insertWalletEvent accountId event).2.confirmations = db.confirmations := by
  funext account outputHash
  simp [confirmations_insertWalletEvent, h]

/-! ## Outputs as the confirmations see them -/

/-- The row is the same output, mined in the same block. -/
structure SameOutput (o o' : OutputRow) : Prop where
  id : o'.id = o.id
  active : o'.active = o.active
  account : o'.accountId = o.accountId
  hash : o'.outputHash = o.outputHash
  mined : o'.minedInBlockHeight = o.minedInBlockHeight

theorem SameOutput.refl (o : OutputRow) : SameOutput o o := ⟨rfl, rfl, rfl, rfl, rfl⟩

theorem SameOutput.trans {o o' o'' : OutputRow} (h : SameOutput o o') (h' : SameOutput o' o'') :
    SameOutput o o'' :=
  ⟨h'.id.trans h.id, h'.active.trans h.active, h'.account.trans h.account, h'.hash.trans h.hash,
    h'.mined.trans h.mined⟩

/-- No two undeleted outputs have the same hash. -/
def UniqueHashes (outputs : AutoTable OutputRow) : Prop :=
  ∀ o ∈ outputs.rows, ∀ o' ∈ outputs.rows, o.active = true → o'.active = true →
    o.outputHash = o'.outputHash → o = o'

theorem UniqueHashes.of_same {before after : AutoTable OutputRow} (h : UniqueHashes before)
    (hrows : ∀ o' ∈ after.rows, o'.active = true → ∃ o ∈ before.rows, SameOutput o o') :
    UniqueHashes after := by
  intro o₁ ho₁ o₂ ho₂ hactive₁ hactive₂ hhash
  obtain ⟨o, ho, hsame⟩ := hrows o₁ ho₁ hactive₁
  obtain ⟨o', ho', hsame'⟩ := hrows o₂ ho₂ hactive₂
  have heq : o = o' := h o ho o' ho' (hsame.active.symm.trans hactive₁)
    (hsame'.active.symm.trans hactive₂) (hsame.hash.symm.trans (hhash.trans hsame'.hash))
  -- rows of one table with one id are one row
  refine after.eq_of_key_eq ho₁ ho₂ ?_
  show o₁.id = o₂.id
  rw [hsame.id, hsame'.id, heq]

theorem UniqueHashes.insert {outputs : AutoTable OutputRow} (h : UniqueHashes outputs)
    {mk : Id → OutputRow} (hmk : ∀ k, (mk k).id = k)
    (hnew : ∀ o ∈ outputs.rows, o.active = true → ∀ k, o.outputHash ≠ (mk k).outputHash) :
    UniqueHashes (outputs.insert mk hmk) := by
  intro o ho o' ho' hactive hactive' hhash
  rcases (AutoTable.mem_insert hmk).mp ho with ho | rfl
  · rcases (AutoTable.mem_insert hmk).mp ho' with ho' | rfl
    · exact h o ho o' ho' hactive hactive' hhash
    · exact absurd hhash (hnew o ho hactive _)
  · rcases (AutoTable.mem_insert hmk).mp ho' with ho' | rfl
    · exact absurd hhash.symm (hnew o' ho' hactive' _)
    · rfl

/-! ## Blocks -/

section Block

variable {env : ScanEnv} {bp : BlockProcessor} {now : Timestamp} {block : BlockScanResult}
  {accountId : AccountId} {req : Nat}

/-- `get_unconfirmed_outputs` takes the row, when it is undeleted. -/
def OutputRow.deepIn (req : Nat) (accountId : AccountId) (height : Nat) (o : OutputRow) : Bool :=
  o.accountId == accountId && decide (o.minedInBlockHeight ≤ asI64 (height - req))
    && o.confirmedHeight.isNone

/-- An undeleted row while a block is processed, before the confirmations: a row of before, or a new
    one of the block. -/
def FromBefore (accountId : AccountId) (height : Nat) (before : AutoTable OutputRow)
    (o' : OutputRow) : Prop :=
  (∃ o ∈ before.rows, SameOutput o o' ∧ o'.confirmedHeight = o.confirmedHeight) ∨
    before.seq < o'.id ∧ o'.accountId = accountId ∧ o'.minedInBlockHeight = asI64 height ∧
      o'.confirmedHeight = none

theorem FromBefore.same {height : Nat} {before : AutoTable OutputRow} {o o' : OutputRow}
    (h : FromBefore accountId height before o) (hsame : SameOutput o o')
    (hconfirmed : o'.confirmedHeight = o.confirmedHeight) :
    FromBefore accountId height before o' := by
  rcases h with ⟨o₀, ho₀, hsame₀, hconfirmed₀⟩ | ⟨hnew, hacc, hmined, hnone⟩
  · exact Or.inl ⟨o₀, ho₀, hsame₀.trans hsame, hconfirmed.trans hconfirmed₀⟩
  · exact Or.inr ⟨hsame.id ▸ hnew, hsame.account.trans hacc, hsame.mined.trans hmined,
      hconfirmed.trans hnone⟩

/-- The outputs while a block is processed, before the confirmations. -/
structure ScannedBlock (accountId : AccountId) (height : Nat) (before : AutoTable OutputRow)
    (L : Ledger) : Prop where
  seq : before.seq ≤ L.outputs.seq
  rows : ∀ o ∈ L.outputs.rows, o.active = true → FromBefore accountId height before o
  unique : UniqueHashes L.outputs

theorem scannedBlock_rule (env : ScanEnv) (before : AutoTable OutputRow) :
    BlockRule env bp now block accountId (fun _ => ScannedBlock accountId block.height before)
      (fun _ => ScannedBlock accountId block.height before) (fun _ => True) where
  skip _ _ _ _ h := h
  credit w rest key memo payref id db db' _ hins h := by
    obtain ⟨timestamp, -, hnew, -, rfl⟩ := insertOutput_ok hins
    refine ⟨Nat.le_succ_of_le h.seq, fun o ho hactive => ?_,
      h.unique.insert (fun _ => rfl) (fun o ho hactive _ => hnew o ho hactive)⟩
    rcases (AutoTable.mem_insert (fun _ => rfl)).mp ho with ho | rfl
    · exact h.rows o ho hactive
    · exact Or.inr ⟨Nat.lt_succ_of_le h.seq, rfl, rfl, rfl⟩
  outputsDone _ h := h
  ignore _ _ _ _ h := h
  debit hash rest info timestamp inputId db _ _ h := by
    have houtputs := outputs_insertOrIgnoreInput db accountId info.id block.height block.blockHash
      timestamp
    have hrows : ∀ o' ∈ (db.updateOutputStatus info.id .spent).outputs.rows,
        ∃ o ∈ db.outputs.rows, SameOutput o o' ∧ o'.confirmedHeight = o.confirmedHeight := by
      intro o' ho'
      obtain ⟨o, ho, rfl⟩ := (AutoTable.mem_updateWhere (by intro _; rfl)).mp ho'
      refine ⟨o, ho, ?_⟩
      split <;> exact ⟨⟨rfl, rfl, rfl, rfl, rfl⟩, rfl⟩
    constructor
    · simp only [Db.ledger, Db.updateOutputStatus, Db.insertBalanceChange, houtputs]
      exact h.seq
    · intro o' ho' hactive
      simp only [Db.ledger, Db.updateOutputStatus, Db.insertBalanceChange, houtputs] at ho'
      obtain ⟨o, ho, hsame, hconfirmed⟩ := hrows o' ho'
      exact (h.rows o ho (hsame.active.symm.trans hactive)).same hsame hconfirmed
    · refine h.unique.of_same (fun o' ho' _ => ?_)
      simp only [Db.ledger, Db.updateOutputStatus, Db.insertBalanceChange, houtputs] at ho'
      obtain ⟨o, ho, hsame, -⟩ := hrows o' ho'
      exact ⟨o, ho, hsame⟩
  record _ _ := trivial
  confirm _ _ _ := trivial

theorem processOutputs_keepsConfirmations {key : PrivateKey} {acc : BlockEventAccumulator} :
    Keeps Db.confirmations (BlockProcessor.processOutputs env bp now block accountId key acc) := by
  refine Keeps.bind (Keeps.foldlM (fun st w => ?_)) (fun st => ?_)
  · obtain ⟨hash, output, walletIdx⟩ := w
    unfold BlockProcessor.processOutput
    dsimp only
    split
    · exact Keeps.pure
    · refine Keeps.ite Keeps.pure (Keeps.bind (Keeps.stmt (fun db id db' hins => ?_)) (fun _ => ?_))
      · obtain ⟨timestamp, -, -, -, rfl⟩ := insertOutput_ok hins
        rfl
      · refine Keeps.bind (Keeps.insert (fun db => confirmations_insertOther (fun _ => rfl)))
          (fun _ => ?_)
        exact Keeps.bind (Keeps.insert (fun _ => rfl)) (fun _ => Keeps.pure)
  · exact Keeps.bind (triggerWebhooks_keepsView (fun _ _ => rfl) _ _ _ _) (fun _ => Keeps.pure)

theorem processInputs_keepsConfirmations {acc : BlockEventAccumulator} :
    Keeps Db.confirmations (BlockProcessor.processInputs now block accountId acc) := by
  refine Keeps.foldlM (fun acc hash => Keeps.bind Keeps.query (fun info => ?_))
  cases info with
  | none => exact Keeps.pure
  | some info =>
      refine Keeps.bind ?_ (fun _ => Keeps.bind (Keeps.insert (fun _ => rfl))
        (fun _ => Keeps.bind (Keeps.update (fun _ => rfl)) (fun _ => Keeps.pure)))
      unfold insertInput
      split
      · exact Keeps.throw
      · refine Keeps.bind (Keeps.update (fun db => ?_)) (fun _ => Keeps.tryQuery)
        unfold Db.insertOrIgnoreInput
        split <;> rfl

/-! ## Confirmations -/

/-- A row and the events for it, once the block at this height has confirmed the outputs. -/
structure ConfirmedIn (req : Nat) (accountId : AccountId) (height : Nat)
    (counts counts' : AccountId → FixedHash → Nat) (o o' : OutputRow) : Prop where
  same : SameOutput o o'
  confirmed : o'.confirmedHeight =
    if o.deepIn req accountId height then some (asI64 height) else o.confirmedHeight
  events : counts' o.accountId o.outputHash = counts o.accountId o.outputHash +
    if o.deepIn req accountId height then 1 else 0

/-- The outputs and events that the confirmations write. -/
def Db.confirmationTables (db : Db) : AutoTable OutputRow × (AccountId → FixedHash → Nat) :=
  (db.outputs, db.confirmations)

/-- These tables while the hashes are marked, of which some are done with. -/
structure Marking (accountId : AccountId) (height : Nat) (before : Db) (done : List FixedHash)
    (tables : AutoTable OutputRow × (AccountId → FixedHash → Nat)) : Prop where
  rows : ∀ o' ∈ tables.1.rows, ∃ o ∈ before.outputs.rows, SameOutput o o' ∧
    o'.confirmedHeight = if o.outputHash ∈ done then some (asI64 height) else o.confirmedHeight
  events : ∀ account hash, tables.2 account hash = before.confirmations account hash +
    if accountId = account then done.count hash else 0

theorem Marking.step {before db : Db} {done : List FixedHash} {height : Nat}
    (h : Marking accountId height before done db.confirmationTables) {event : WalletEvent}
    {hash : FixedHash}
    (hconfirms : ∀ outputHash, event.eventType.confirms outputHash = (hash == outputHash))
    {blockHash : FixedHash} :
    Marking accountId height before (done ++ [hash])
      ((db.insertWalletEvent accountId event).2.markOutputConfirmed hash height
        blockHash).confirmationTables := by
  constructor
  · intro o'' ho''
    obtain ⟨o', ho', rfl⟩ := (AutoTable.mem_updateWhere (by intro _; rfl)).mp ho''
    obtain ⟨o, ho, hsame, hconfirmed⟩ := h.rows o' ho'
    refine ⟨o, ho, ?_⟩
    have hhash := hsame.hash
    by_cases hmarked : o.outputHash = hash
    · rw [if_pos (by simp [hhash, hmarked]), if_pos (by simp [hmarked])]
      exact ⟨⟨hsame.id, hsame.active, hsame.account, hsame.hash, hsame.mined⟩, rfl⟩
    · rw [if_neg (by simp [hhash, hmarked])]
      exact ⟨hsame, by simpa [hmarked] using hconfirmed⟩
  · intro account outputHash
    show (db.insertWalletEvent accountId event).2.confirmations account outputHash = _
    have hevents : db.confirmations account outputHash = _ := h.events account outputHash
    rw [confirmations_insertWalletEvent, hevents, hconfirms, List.count_append,
      List.count_singleton]
    by_cases hacc : accountId = account
    · simp [hacc, Nat.add_assoc]
    · simp [hacc]

/-- The hashes that `process_confirmations` marks are those of the rows that are deep enough. -/
theorem mem_unconfirmedHashes {db : Db} {height : Nat} (hunique : UniqueHashes db.outputs)
    {o : OutputRow} (ho : o ∈ db.outputs.rows) (hactive : o.active = true) :
    o.outputHash ∈ (db.getUnconfirmedOutputs accountId height req).map (·.outputHash) ↔
      o.deepIn req accountId height = true := by
  simp only [Db.getUnconfirmedOutputs, List.map_map, List.mem_map, Function.comp, Table.mem_select]
  constructor
  · rintro ⟨o', ⟨ho', hp⟩, hhash⟩
    simp only [Bool.and_eq_true] at hp
    have heq : o' = o := hunique o' ho' o ho hp.2 hactive hhash
    subst heq
    simpa [OutputRow.deepIn] using hp.1
  · intro hdeep
    refine ⟨o, ⟨ho, ?_⟩, rfl⟩
    simpa [OutputRow.deepIn, hactive] using hdeep

theorem nodup_unconfirmedHashes {db : Db} {height : Nat} (hunique : UniqueHashes db.outputs) :
    ((db.getUnconfirmedOutputs accountId height req).map (·.outputHash)).Nodup := by
  simp only [Db.getUnconfirmedOutputs, List.map_map]
  refine List.Nodup.map_on (fun o ho o' ho' hhash => ?_)
    (List.Nodup.of_map key (Table.nodup_select db.outputs.toTable _))
  obtain ⟨hrow, hp⟩ := Table.mem_select.mp ho
  obtain ⟨hrow', hp'⟩ := Table.mem_select.mp ho'
  simp only [Bool.and_eq_true] at hp hp'
  exact hunique o hrow o' hrow' hp.2 hp'.2 hhash

theorem processConfirmations_confirms (hreq : bp.requiredConfirmations = req) {db : Db}
    (hunique : UniqueHashes db.outputs) :
    Ensures (· = db) (BlockProcessor.processConfirmations bp now block accountId)
      (fun _ db' => ∀ o' ∈ db'.outputs.rows, o'.active = true →
        ∃ o ∈ db.outputs.rows, ConfirmedIn req accountId block.height db.confirmations
          db'.confirmations o o') := by
  let hashes := (db.getUnconfirmedOutputs accountId block.height req).map (·.outputHash)
  let Part : List UnconfirmedOutputRow → Db → Prop := fun rest db' => ∃ done,
    hashes = done ++ rest.map (·.outputHash) ∧
      Marking accountId block.height db done db'.confirmationTables
  unfold BlockProcessor.processConfirmations
  refine Ensures.bind (Q := Part) (Ensures.query (fun db' h => ?_)) (fun unconfirmed => ?_)
  · subst h
    exact ⟨[], by simp [hashes, hreq], fun o ho => ⟨o, ho, .refl o, by simp⟩,
      fun account hash => by simp [Db.confirmationTables]⟩
  refine Ensures.bind (Q := fun _ => Part []) ?_ (fun events => ?_)
  · refine Ensures.foldlM (I := fun rest _ => Part rest) _ _ (fun o rest events => ?_)
    let AfterEvent : Db → Prop := fun db' => ∃ done, hashes = done ++ rest.map (·.outputHash) ∧
      Marking accountId block.height db done
        (db'.markOutputConfirmed o.outputHash block.height block.blockHash).confirmationTables
    refine Ensures.bind (Q := fun _ => AfterEvent) (Ensures.insert (fun db' h => ?_)) (fun _ => ?_)
    · obtain ⟨done, hdone, hmarking⟩ := h
      exact ⟨done ++ [o.outputHash], by simpa using hdone, hmarking.step (fun _ => rfl)⟩
    · exact Ensures.bind (Q := fun _ => Part rest) (Ensures.update (fun db' h => h))
        (fun _ => Ensures.pure (fun _ h => h))
  refine Ensures.bind (Q := fun _ db' => Marking accountId block.height db hashes
    db'.confirmationTables) ?_ (fun _ => Ensures.pure (fun db' h o' ho' hactive => ?_))
  · have hkeeps := triggerWebhooks_keepsView (v := Db.confirmationTables) (fun _ _ => rfl) accountId
      events bp.webhookConfig now
    refine (hkeeps.ensures (Marking accountId block.height db hashes)).mono (fun db' h => ?_)
      (fun _ _ h => h)
    obtain ⟨done, hdone, hmarking⟩ := h
    rwa [hdone, List.map_nil, List.append_nil]
  · obtain ⟨o, ho, hsame, hconfirmed⟩ := h.rows o' ho'
    have hdeep : o.outputHash ∈ hashes ↔ o.deepIn req accountId block.height = true :=
      mem_unconfirmedHashes hunique ho (hsame.active.symm.trans hactive)
    have hcount : hashes.count o.outputHash = if o.outputHash ∈ hashes then 1 else 0 :=
      (nodup_unconfirmedHashes hunique).count
    have hevents : db'.confirmations o.accountId o.outputHash = _ := h.events _ _
    simp only [hdeep] at hconfirmed hcount
    refine ⟨o, ho, hsame, hconfirmed, ?_⟩
    rw [hevents, hcount]
    -- the rows of other accounts are not looked at
    by_cases hacc : accountId = o.accountId
    · simp [hacc]
    · have hnot : o.deepIn req accountId block.height = false := by
        simp [OutputRow.deepIn, Ne.symm hacc]
      simp [hacc, hnot]

/-- The outputs and events after a block. -/
structure ProcessedBlock (req : Nat) (accountId : AccountId) (height : Nat) (before : Db)
    (tables : AutoTable OutputRow × (AccountId → FixedHash → Nat)) : Prop where
  unique : UniqueHashes tables.1
  rows : ∀ o' ∈ tables.1.rows, o'.active = true → ∃ o,
    FromBefore accountId height before.outputs o ∧
    ConfirmedIn req accountId height before.confirmations tables.2 o o'

theorem processBlock_confirms (hreq : bp.requiredConfirmations = req) {before : Db}
    (hunique : UniqueHashes before.outputs) :
    Ensures (· = before) (bp.processBlock env now block accountId)
      (fun _ db => ProcessedBlock req accountId block.height before db.confirmationTables) := by
  let Scanned : Db → Prop := fun db =>
    ScannedBlock accountId block.height before.outputs db.ledger ∧
    db.confirmations = before.confirmations
  have hrule : BlockRule env bp now block accountId _ _ _ := scannedBlock_rule env before.outputs
  unfold BlockProcessor.processBlock
  refine Ensures.bind (Q := fun _ => Scanned) (Ensures.lift (fun db key h _ => ?_)) (fun key => ?_)
  · subst h
    exact ⟨⟨Nat.le_refl _, fun o ho _ => Or.inl ⟨o, ho, .refl o, rfl⟩, hunique⟩, rfl⟩
  refine Ensures.bind ((processOutputs_ensures hrule key _).and
    (processOutputs_keepsConfirmations.ensures (· = before.confirmations))) (fun st => ?_)
  refine Ensures.bind ((processInputs_ensures hrule _).and
    (processInputs_keepsConfirmations.ensures (· = before.confirmations))) (fun acc => ?_)
  refine Ensures.bind (Q := fun _ => Scanned) (Ensures.update (fun db h => ?_)) (fun _ => ?_)
  · unfold Db.insertScannedTipBlock
    split <;> exact ⟨⟨h.1.seq, h.1.rows, h.1.unique⟩, h.2⟩
  refine Ensures.bind (Q := fun _ db => ProcessedBlock req accountId block.height before
    db.confirmationTables) ?_ (fun confirmed => ?_)
  · intro c events c' hscanned hrun
    obtain ⟨hscanned, hcounts⟩ := hscanned
    have hrows := processConfirmations_confirms hreq hscanned.unique c events c' rfl hrun
    refine ⟨hscanned.unique.of_same (fun o' ho' hactive => ?_), fun o' ho' hactive => ?_⟩
    · obtain ⟨o, ho, hconfirmed⟩ := hrows o' ho' hactive
      exact ⟨o, ho, hconfirmed.same⟩
    · obtain ⟨o, ho, hconfirmed⟩ := hrows o' ho' hactive
      rw [hcounts] at hconfirmed
      exact ⟨o, hscanned.rows o ho (hconfirmed.same.active.symm.trans hactive), hconfirmed⟩
  · exact Ensures.bind ((saveAndEmitDisplayedTransactions_keepsView (v := Db.confirmationTables)
      (fun _ _ => rfl) _ _ _ _ _ _).ensures (ProcessedBlock req accountId block.height before))
      (fun ready => Ensures.pure (fun _ h => h))

end Block

/-! ## Rollbacks -/

theorem rollbackFromHeight_confirmations {accountId : AccountId} {height : Nat}
    {webhookConfig : Option WebhookTriggerConfig} {now : Timestamp} {c c' : Conn Db}
    {info : ReorgInformation}
    (h : rollbackFromHeight accountId height webhookConfig now c = .ok info c') :
    c'.store.confirmations = c.store.confirmations := by
  have hevent : ∀ (db : Db) (event : WalletEvent), event.eventType.ofRollback = true →
      (db.insertWalletEvent accountId event).2.confirmations = db.confirmations := by
    intro db event hrollback
    refine confirmations_insertOther (fun outputHash => ?_)
    cases htype : event.eventType with
    | outputConfirmed => rw [htype] at hrollback; cases hrollback
    | _ => rfl
  obtain ⟨c₁, c₂, txs, hbefore, hmark, hafter⟩ := rollbackFromHeight_marks
    (w := fun _ events account hash =>
      events.rows.countP (fun e => e.accountId == account && e.data.confirms hash)) hevent h
  have hkeeps : Keeps Db.confirmations
      (markDisplayedTransactionsReorganizedAndReturn accountId height) :=
    Keeps.bind Keeps.query (fun _ => Keeps.foldlM (fun _ _ =>
      Keeps.bind (Keeps.update (fun _ => rfl)) (fun _ => Keeps.pure)))
  have hsame := hkeeps.ensures (· = c₁.store.confirmations) c₁ txs c₂ rfl hmark
  exact hafter.trans (hsame.trans hbefore)

/-! ## Runs -/

/-- The heights of the account's blocks in the run. -/
def scannedHeights (accountId : AccountId) (as : List LedgerAction) : List Nat :=
  as.filterMap (fun a => match a with
    | .processBlock _ block account _ => if account = accountId then some block.height else none
    | _ => none)

/-- The first of the heights that has the required blocks above an output mined at `mined`. -/
def firstDeep (req mined : Nat) (heights : List Nat) : Option Nat :=
  heights.find? (fun height => mined + req ≤ height)

/-- The block's height is one that SQLite stores as it is. -/
def LedgerAction.HeightFits : LedgerAction → Prop
  | .processBlock _ block _ _ => block.height < 2 ^ 63
  | _ => True

instance : DecidablePred LedgerAction.HeightFits
  | .processBlock _ _ _ _ => inferInstanceAs (Decidable (_ < _))
  | .lockOutput _ _ _ => .isTrue trivial
  | .unlockOutputsForRequest _ => .isTrue trivial
  | .rollbackFromHeight _ _ _ _ => .isTrue trivial

/-- The run stored the output in a block at this height, from the database `before` and with the
    calls `later` after it. -/
structure StoredAt (env : ScanEnv) (as : List LedgerAction) (o : OutputRow) (height : Nat)
    (before : Db) (later : List LedgerAction) : Prop where
  call : ∃ earlier bp block now after, block.height = height ∧
    as = earlier ++ .processBlock bp block o.accountId now :: later ∧
    Transition.run (ledgerStep env) Db.empty earlier = some before ∧
    ledgerStep env before (.processBlock bp block o.accountId now) = some after ∧
    ∃ o₀ ∈ after.outputs.rows, SameOutput o₀ o
  new : ∀ o' ∈ before.outputs.rows, o'.id ≠ o.id
  mined : o.minedInBlockHeight = height

/-- What the blocks since then made of the output: the first that is high enough has confirmed it,
    and there is one event if one has. -/
structure ConfirmedSince (req : Nat) (o : OutputRow) (height : Nat) (before : Db)
    (later : List LedgerAction) (db : Db) : Prop where
  confirmed : 1 ≤ height → o.confirmedHeight =
    (firstDeep req height (height :: scannedHeights o.accountId later)).map Nat.cast
  events : db.confirmations o.accountId o.outputHash =
    before.confirmations o.accountId o.outputHash + if o.confirmedHeight.isSome then 1 else 0

/-- What blocks of these heights, the last at `last`, have made of an output mined at `height`. -/
structure ConfirmedUpTo (req : Nat) (o : OutputRow) (height : Nat) (heights : List Nat)
    (last : Nat) : Prop where
  deep : height + req ≤ last →
    ∃ first, firstDeep req height heights = some first ∧ o.confirmedHeight = some (first : Int)
  shallow : last < height + req → o.confirmedHeight = none

section Runs

variable {env : ScanEnv} {req : Nat} {db db' : Db} {a : LedgerAction} {as : List LedgerAction}

/-- The test of `get_unconfirmed_outputs` is one of the depth when the mined height is not 0. -/
theorem deepIn_iff {accountId : AccountId} {height mined : Nat} {o : OutputRow}
    (hfits : height < 2 ^ 63) (hmined : o.minedInBlockHeight = mined) (hone : 1 ≤ mined) :
    o.deepIn req accountId height = true ↔
      o.accountId = accountId ∧ mined + req ≤ height ∧ o.confirmedHeight = none := by
  simp only [OutputRow.deepIn, Bool.and_eq_true, beq_iff_eq, decide_eq_true_eq,
    Option.isNone_iff_eq_none, and_assoc]
  have hdeep : o.minedInBlockHeight ≤ asI64 (height - req) ↔ mined + req ≤ height := by
    rw [asI64_of_lt (by omega), hmined]
    omega
  rw [hdeep]

/-- What a call leaves of the undeleted outputs: the rows after a block, or rows as they were. -/
theorem confirmed_step (hreq : a.Requires req) (hunique : UniqueHashes db.outputs)
    (hstep : ledgerStep env db a = some db') :
    (∃ bp block accountId now, a = .processBlock bp block accountId now ∧
        ProcessedBlock req accountId block.height db db'.confirmationTables) ∨
      (∀ accountId, scannedHeights accountId [a] = []) ∧ db'.confirmations = db.confirmations ∧
        ∀ o' ∈ db'.outputs.rows, o'.active = true →
          ∃ o ∈ db.outputs.rows, SameOutput o o' ∧ o'.confirmedHeight = o.confirmedHeight := by
  cases a with
  | processBlock bp block accountId now =>
      obtain ⟨⟨outcome, db₁⟩, hrun, rfl⟩ := Option.map_eq_some_iff.mp hstep
      exact Or.inl ⟨bp, block, accountId, now, rfl,
        (processBlock_confirms hreq hunique).of_runOk rfl hrun⟩
  | lockOutput outputId lockedByRequestId lockedAt =>
      cases hstep
      refine Or.inr ⟨fun _ => rfl, rfl, fun o' ho' _ => ?_⟩
      obtain ⟨o, ho, rfl⟩ := (AutoTable.mem_updateWhere (by intro _; rfl)).mp ho'
      refine ⟨o, ho, ?_⟩
      split <;> exact ⟨⟨rfl, rfl, rfl, rfl, rfl⟩, rfl⟩
  | unlockOutputsForRequest lockedByRequestId =>
      cases hstep
      refine Or.inr ⟨fun _ => rfl, rfl, fun o' ho' _ => ?_⟩
      obtain ⟨o, ho, rfl⟩ := (AutoTable.mem_updateWhere (by intro _; rfl)).mp ho'
      refine ⟨o, ho, ?_⟩
      split <;> exact ⟨⟨rfl, rfl, rfl, rfl, rfl⟩, rfl⟩
  | rollbackFromHeight accountId height webhookConfig now =>
      obtain ⟨⟨info, db₁⟩, hrun, rfl⟩ := Option.map_eq_some_iff.mp hstep
      obtain ⟨c', hrun', rfl⟩ := runOk_eq_some.mp hrun
      refine Or.inr ⟨fun _ => rfl, rollbackFromHeight_confirmations hrun',
        fun o ho hactive => ⟨o, ?_, .refl o, rfl⟩⟩
      rw [(rollbackFromHeight_rolledBack hrun').outputs] at ho
      exact ((mem_setOutputsDeleted_active hactive).mp ho).1

theorem uniqueHashes_step (hreq : a.Requires req) (hunique : UniqueHashes db.outputs)
    (hstep : ledgerStep env db a = some db') : UniqueHashes db'.outputs := by
  rcases confirmed_step hreq hunique hstep with ⟨_, _, _, _, -, hblock⟩ | ⟨-, -, hrows⟩
  · exact hblock.unique
  · refine hunique.of_same (fun o' ho' hactive => ?_)
    obtain ⟨o, ho, hsame, -⟩ := hrows o' ho' hactive
    exact ⟨o, ho, hsame⟩

theorem uniqueHashes_of_run (hreq : ∀ a ∈ as, a.Requires req)
    (hrun : Transition.run (ledgerStep env) Db.empty as = some db) : UniqueHashes db.outputs :=
  Transition.inv_of_run (I := fun db => UniqueHashes db.outputs) (G := fun _ a => a.Requires req)
    (fun _ _ _ hunique hreq hstep => uniqueHashes_step hreq hunique hstep)
    (by intro o ho; cases ho) (Transition.along_of_forall _ hreq) hrun

/-- The output stays one that was stored there. -/
theorem StoredAt.append {o o' : OutputRow} {height : Nat} {before : Db} {later : List LedgerAction}
    (h : StoredAt env as o height before later) (hsame : SameOutput o o') (a : LedgerAction) :
    StoredAt env (as ++ [a]) o' height before (later ++ [a]) := by
  obtain ⟨earlier, bp, block, now, after, hheight, has, hearlier, hblock, o₀, ho₀, hsame₀⟩ := h.call
  constructor
  · rw [hsame.account]
    exact ⟨earlier, bp, block, now, after, hheight, by simp [has], hearlier, hblock, o₀, ho₀,
      hsame₀.trans hsame⟩
  · rw [hsame.id]
    exact h.new
  · rw [hsame.mined]
    exact h.mined

theorem scannedHeights_append (accountId : AccountId) (as bs : List LedgerAction) :
    scannedHeights accountId (as ++ bs) =
      scannedHeights accountId as ++ scannedHeights accountId bs :=
  List.filterMap_append

/-- A call that is not a block leaves the confirmations as they are. -/
theorem ConfirmedSince.keep {o o' : OutputRow} {height : Nat} {before : Db}
    {later : List LedgerAction} (h : ConfirmedSince req o height before later db)
    (hsame : SameOutput o o') (hconfirmed : o'.confirmedHeight = o.confirmedHeight)
    (hevents : db'.confirmations = db.confirmations)
    (ha : scannedHeights o.accountId [a] = []) :
    ConfirmedSince req o' height before (later ++ [a]) db' := by
  constructor
  · intro hone
    rw [hconfirmed, h.confirmed hone, hsame.account, scannedHeights_append, ha, List.append_nil]
  · rw [hevents, hconfirmed, hsame.account, hsame.hash, h.events]

/-- A block confirms the output when it is the first that is high enough. -/
theorem ConfirmedSince.block {o o' : OutputRow} {height : Nat} {before : Db}
    {later : List LedgerAction} (h : ConfirmedSince req o height before later db)
    (hmined : o.minedInBlockHeight = height) {bp : BlockProcessor} {block : BlockScanResult}
    {accountId : AccountId} {now : Timestamp} (hfits : block.height < 2 ^ 63)
    (hblock : ConfirmedIn req accountId block.height db.confirmations db'.confirmations o o') :
    ConfirmedSince req o' height before (later ++ [.processBlock bp block accountId now]) db' := by
  constructor
  · intro hone
    have hdeep : o.deepIn req accountId block.height = true ↔ _ := deepIn_iff hfits hmined hone
    have hsplit : scannedHeights o.accountId (later ++ [.processBlock bp block accountId now]) =
        scannedHeights o.accountId later ++
          if accountId = o.accountId then [block.height] else [] := by
      rw [scannedHeights_append]
      by_cases hacc : accountId = o.accountId <;> simp [scannedHeights, hacc]
    have hbefore := h.confirmed hone
    rw [hblock.same.account, hsplit, ← List.cons_append, firstDeep, List.find?_append,
      hblock.confirmed]
    rw [firstDeep] at hbefore
    cases hfirst : (height :: scannedHeights o.accountId later).find?
        (fun h => decide (height + req ≤ h)) with
    | some first =>
        rw [hfirst] at hbefore
        rw [if_neg (fun hd => by simp [(hdeep.mp hd).2.2] at hbefore), hbefore]
        rfl
    | none =>
        rw [hfirst] at hbefore
        by_cases hacc : accountId = o.accountId
        · by_cases hle : height + req ≤ block.height
          · rw [if_pos (hdeep.mpr ⟨hacc.symm, hle, hbefore⟩)]
            simp [hacc, hle, asI64_of_lt hfits]
          · rw [if_neg (fun hd => hle (hdeep.mp hd).2.1), hbefore]
            simp [hacc, hle]
        · rw [if_neg (fun hd => hacc (hdeep.mp hd).1.symm), hbefore]
          simp [hacc]
  · rw [hblock.same.account, hblock.same.hash, hblock.events, h.events, hblock.confirmed]
    by_cases hd : o.deepIn req accountId block.height = true
    · have hnone : o.confirmedHeight = none := by
        simp only [OutputRow.deepIn, Bool.and_eq_true, Option.isNone_iff_eq_none] at hd
        exact hd.2
      simp [hd, hnone]
    · simp [hd]

/-- A block that stores the output confirms it at once when no more blocks are required. -/
theorem confirmedSince_stored {o o' : OutputRow} {height : Nat} (hfits : height < 2 ^ 63)
    (hmined : o.minedInBlockHeight = height) (hnone : o.confirmedHeight = none)
    (hblock : ConfirmedIn req o.accountId height db.confirmations db'.confirmations o o') :
    ConfirmedSince req o' height db [] db' := by
  constructor
  · intro hone
    have hdeep : o.deepIn req o.accountId height = true ↔ _ := deepIn_iff hfits hmined hone
    rw [hblock.confirmed]
    by_cases hle : height + req ≤ height
    · rw [if_pos (hdeep.mpr ⟨rfl, hle, hnone⟩)]
      simp [firstDeep, scannedHeights, hle, asI64_of_lt hfits]
    · rw [if_neg (fun hd => hle (hdeep.mp hd).2.1), hnone]
      simp [firstDeep, scannedHeights, hle]
  · rw [hblock.same.account, hblock.same.hash, hblock.events, hblock.confirmed]
    by_cases hd : o.deepIn req o.accountId height = true
    · simp [hd]
    · simp [hd, hnone]

/-- Every undeleted output was stored in some block of the run, and the blocks since then have
    confirmed it as they should. -/
theorem stored_of_run (hreq : ∀ a ∈ as, a.Requires req) (hfits : ∀ a ∈ as, a.HeightFits)
    (hrun : Transition.run (ledgerStep env) Db.empty as = some db) :
    ∀ o ∈ db.outputs.rows, o.active = true → ∃ height before later,
      StoredAt env as o height before later ∧ ConfirmedSince req o height before later db := by
  -- the last call may have stored the row; the calls before it are a shorter run
  induction as using List.reverseRecOn generalizing db with
  | nil =>
      cases hrun
      intro o ho
      cases ho
  | append_singleton as a ih =>
      intro o' ho' hactive
      obtain ⟨db₁, hrun₁, hlast⟩ := Transition.run_append.mp hrun
      obtain ⟨db₂, hstep, hnil⟩ := Transition.run_cons.mp hlast
      cases hnil
      have hreq₁ : ∀ b ∈ as, b.Requires req := fun b hb => hreq b (List.mem_append_left _ hb)
      have hfits₁ : ∀ b ∈ as, b.HeightFits := fun b hb => hfits b (List.mem_append_left _ hb)
      have ha : a ∈ as ++ [a] := by simp
      rcases confirmed_step (hreq a ha) (uniqueHashes_of_run hreq₁ hrun₁) hstep with
        ⟨bp, block, accountId, now, rfl, hblock⟩ | ⟨hscans, hevents, hrows⟩
      · have hheight : block.height < 2 ^ 63 := hfits _ ha
        obtain ⟨o, hfrom, hconfirmed⟩ := hblock.rows o' ho' hactive
        rcases hfrom with ⟨o₁, ho₁, hsame, hsame'⟩ | ⟨hnew, rfl, hmined, hnone⟩
        · obtain ⟨height, before, later, hstored, hsince⟩ := ih hreq₁ hfits₁ hrun₁ o₁ ho₁
            (hsame.active.symm.trans (hconfirmed.same.active.symm.trans hactive))
          have hsince' : ConfirmedSince req o height before later db₁ :=
            ⟨by rw [hsame', hsame.account]; exact hsince.confirmed,
              by rw [hsame', hsame.account, hsame.hash]; exact hsince.events⟩
          refine ⟨height, before, later ++ [.processBlock bp block accountId now],
            hstored.append (hsame.trans hconfirmed.same) _,
            hsince'.block (hsame.mined.trans hstored.mined) hheight hconfirmed⟩
        · have hmined' : o.minedInBlockHeight = block.height := by
            rw [hmined, asI64_of_lt hheight]
          refine ⟨block.height, db₁, [], ⟨⟨as, bp, block, now, db, rfl, ?_, hrun₁, ?_, o', ho',
            .refl o'⟩, fun o₁ ho₁ hid => ?_, hconfirmed.same.mined.trans hmined'⟩,
            confirmedSince_stored hheight hmined' hnone hconfirmed⟩
          · rw [hconfirmed.same.account]
          · rw [hconfirmed.same.account]
            exact hstep
          · have hle : o₁.id ≤ db₁.outputs.seq := db₁.outputs.bounded o₁ ho₁
            rw [hid, hconfirmed.same.id] at hle
            exact absurd hle (not_le.mpr hnew)
      · obtain ⟨o, ho, hsame, hconfirmed⟩ := hrows o' ho' hactive
        obtain ⟨height, before, later, hstored, hsince⟩ := ih hreq₁ hfits₁ hrun₁ o ho
          (hsame.active.symm.trans hactive)
        exact ⟨height, before, later ++ [a], hstored.append hsame a,
          hsince.keep hsame hconfirmed hevents (hscans _)⟩

/-- In blocks of increasing height nothing below an output's block can confirm it. -/
theorem firstDeep_of_increasing {height : Nat} {earlier later : List Nat}
    (h : (earlier ++ height :: later).Pairwise (· < ·)) :
    firstDeep req height (earlier ++ height :: later) = firstDeep req height (height :: later) := by
  have hnone : earlier.find? (fun h => decide (height + req ≤ h)) = none := by
    refine List.find?_eq_none.mpr (fun h' hh' => ?_)
    have hlt : h' < height := (List.pairwise_append.mp h).2.2 h' hh' height List.mem_cons_self
    simp only [decide_eq_true_eq]
    omega
  rw [firstDeep, List.find?_append, hnone, firstDeep]
  rfl

theorem le_last_of_increasing {heights : List Nat} {last : Nat} (h : heights.Pairwise (· < ·))
    (hlast : heights.getLast? = some last) : ∀ height ∈ heights, height ≤ last := by
  obtain ⟨init, rfl⟩ := List.getLast?_eq_some_iff.mp hlast
  intro height hheight
  rcases List.mem_append.mp hheight with hinit | hlast
  · exact Nat.le_of_lt ((List.pairwise_append.mp h).2.2 height hinit last List.mem_cons_self)
  · exact Nat.le_of_eq (List.mem_singleton.mp hlast)

theorem confirmedUpTo_of_since {o : OutputRow} {height last : Nat} {before : Db}
    {later : List LedgerAction} (hone : 1 ≤ height)
    (hstored : StoredAt env as o height before later)
    (hsince : ConfirmedSince req o height before later db)
    (hincreasing : (scannedHeights o.accountId as).Pairwise (· < ·))
    (hlast : (scannedHeights o.accountId as).getLast? = some last) :
    ConfirmedUpTo req o height (scannedHeights o.accountId as) last := by
  obtain ⟨earlier, bp, block, now, after, rfl, has, -⟩ := hstored.call
  have hsplit : scannedHeights o.accountId as = scannedHeights o.accountId earlier ++
      block.height :: scannedHeights o.accountId later := by
    rw [has, scannedHeights_append]
    simp [scannedHeights]
  have hfirst : firstDeep req block.height (scannedHeights o.accountId as) =
      firstDeep req block.height (block.height :: scannedHeights o.accountId later) := by
    rw [hsplit] at hincreasing ⊢
    exact firstDeep_of_increasing hincreasing
  have hconfirmed := hsince.confirmed hone
  rw [← hfirst] at hconfirmed
  have hle := le_last_of_increasing hincreasing hlast
  constructor
  · intro hdeep
    have hsome : (firstDeep req block.height (scannedHeights o.accountId as)).isSome = true :=
      List.find?_isSome.mpr ⟨last, List.mem_of_getLast? hlast, by simpa using hdeep⟩
    obtain ⟨first, hfirst⟩ := Option.isSome_iff_exists.mp hsome
    exact ⟨first, hfirst, by rw [hconfirmed, hfirst]; rfl⟩
  · intro hshallow
    have hnone : firstDeep req block.height (scannedHeights o.accountId as) = none := by
      refine List.find?_eq_none.mpr (fun h hh => ?_)
      have := hle h hh
      simp only [decide_eq_true_eq]
      omega
    rw [hconfirmed, hnone]
    rfl

/-- In a run of scan, lock and rollback calls with one number of required confirmations, on blocks
    whose heights SQLite stores as they are, every undeleted output was stored in a block of its
    account. The first block since then that is high enough has confirmed it, with one event, and no
    other has; while the heights of the account increase, it is confirmed exactly when the last of
    them is high enough. -/
theorem confirmedOnce_of_run (env : ScanEnv) (req : Nat) (as : List LedgerAction) (db : Db)
    (hreq : ∀ a ∈ as, a.Requires req) (hfits : ∀ a ∈ as, a.HeightFits)
    (hrun : Transition.run (ledgerStep env) Db.empty as = some db) :
    ∀ o ∈ db.outputs.rows, o.active = true → ∃ height before later,
      StoredAt env as o height before later ∧ ConfirmedSince req o height before later db ∧
        (1 ≤ height → (scannedHeights o.accountId as).Pairwise (· < ·) →
          ∀ last, (scannedHeights o.accountId as).getLast? = some last →
            ConfirmedUpTo req o height (scannedHeights o.accountId as) last) := by
  intro o ho hactive
  obtain ⟨height, before, later, hstored, hsince⟩ := stored_of_run hreq hfits hrun o ho hactive
  exact ⟨height, before, later, hstored, hsince, fun hone hincreasing last hlast =>
    confirmedUpTo_of_since hone hstored hsince hincreasing hlast⟩

end Runs

/-- An output at height 2, confirmed at 5; the blocks from 2 on are rolled back, and the same output
    is mined at height 3 and confirmed at 7. -/
def minedTwice : List LedgerAction :=
  let bp := BlockProcessor.withEventSender [(1, 7)] 3
  let output : FixedHash × WalletOutput × Nat := (500, { outputHash := 500, value := 10 }, 0)
  [.processBlock bp ⟨2, 102, [output], [], 1000⟩ 1 1000,
    .processBlock bp ⟨5, 105, [], [], 1360⟩ 1 1360, .rollbackFromHeight 1 2 none 1400,
    .processBlock bp ⟨3, 203, [output], [], 1500⟩ 1 1500,
    .processBlock bp ⟨7, 207, [], [], 1960⟩ 1 1960]

theorem confirmedOnce_minedTwice : ∃ db,
    Transition.run (ledgerStep plainEnv) Db.empty minedTwice = some db ∧
      db.confirmations 1 500 = 2 ∧
      ∀ o ∈ db.outputs.rows, o.active = true → ∃ height before later,
        StoredAt plainEnv minedTwice o height before later ∧
          ConfirmedSince 3 o height before later db ∧
          (1 ≤ height → (scannedHeights o.accountId minedTwice).Pairwise (· < ·) →
            ∀ last, (scannedHeights o.accountId minedTwice).getLast? = some last →
              ConfirmedUpTo 3 o height (scannedHeights o.accountId minedTwice) last) := by
  obtain ⟨db, hrun, hcount⟩ := Transition.exists_run_of_any (f := ledgerStep plainEnv)
    (s := Db.empty) (l := minedTwice) (q := fun db => decide (db.confirmations 1 500 = 2))
    (by decide +kernel)
  exact ⟨db, hrun, of_decide_eq_true hcount,
    confirmedOnce_of_run plainEnv 3 minedTwice db (by decide) (by decide) hrun⟩

/-- At height 2 ^ 63 the column is negative, and the output is confirmed in its own block. -/
theorem confirmed_atOnce :
    let as : List LedgerAction := [.processBlock (.withEventSender [(1, 7)] 3)
      ⟨2 ^ 63, 101, [(500, { outputHash := 500, value := 10 }, 0)], [], 1000⟩ 1 1000]
    ∃ db, Transition.run (ledgerStep plainEnv) Db.empty as = some db ∧
      ∃ o ∈ db.outputs.rows, o.active = true ∧ o.minedInBlockHeight = asI64 (2 ^ 63) ∧
        ¬ConfirmedUpTo 3 o (2 ^ 63) (scannedHeights o.accountId as) (2 ^ 63) := by
  obtain ⟨db, hrun, hq⟩ := Transition.exists_run_of_any (f := ledgerStep plainEnv)
    (s := Db.empty) (l := [.processBlock (.withEventSender [(1, 7)] 3)
      ⟨2 ^ 63, 101, [(500, { outputHash := 500, value := 10 }, 0)], [], 1000⟩ 1 1000])
    (q := fun db => decide (∃ o ∈ db.outputs.rows, o.active = true ∧
      o.minedInBlockHeight = asI64 (2 ^ 63) ∧ o.confirmedHeight = some (asI64 (2 ^ 63))))
    (by decide +kernel)
  obtain ⟨o, ho, hactive, hmined, hconfirmed⟩ := of_decide_eq_true hq
  refine ⟨db, hrun, o, ho, hactive, hmined, fun h => ?_⟩
  have hnone := h.shallow (by decide)
  rw [hconfirmed] at hnone
  cases hnone

end MinotariWallet
