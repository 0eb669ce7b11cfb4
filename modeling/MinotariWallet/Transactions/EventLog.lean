import MinotariWallet.Lib.Changelog
import MinotariWallet.Scan.Logged
import MinotariWallet.Transactions.Replayed

set_option autoImplicit false

/-! # What the event log tells of the outputs

An output that is stored is announced by an event, and so is its removal by a rollback. Whoever
replays the events of an account in their order, from the first on, holds the hashes of the outputs
that the account has. Events are only added, so it is enough to replay the new ones. -/

namespace MinotariWallet

open Sql Exec

/-- What an event says of the outputs of its account. -/
def WalletEventType.outputChange : WalletEventType → Option (Changelog.Entry FixedHash)
  | .outputDetected hash .. => some (.added hash)
  | .outputRolledBack hash .. => some (.removed hash)
  | _ => none

def changesToldBy (accountId : AccountId) (events : List EventRow) :
    List (Changelog.Entry FixedHash) :=
  (events.filter (fun e => e.accountId == accountId)).filterMap (·.data.outputChange)

def Db.outputChanges (accountId : AccountId) (db : Db) : List (Changelog.Entry FixedHash) :=
  changesToldBy accountId db.events.rows

/-- The hashes of the outputs that the account has. -/
def Ledger.outputHashes (accountId : AccountId) (L : Ledger) : List FixedHash :=
  (L.outputs.select (fun o => o.accountId == accountId && o.active)).map (·.outputHash)

/-- A replay of the events, with what is stored and not announced yet, comes to the outputs. -/
def ToldBut (fresh : List FixedHash) (accountId : AccountId) (db : Db) : Prop :=
  (Changelog.replay [] (db.outputChanges accountId) ++ fresh).Perm
    (db.ledger.outputHashes accountId)

/-- All that `ToldBut` speaks of. -/
def Db.told (accountId : AccountId) (db : Db) : List (Changelog.Entry FixedHash) × List FixedHash :=
  (db.outputChanges accountId, db.ledger.outputHashes accountId)

theorem ToldBut.of_told {fresh : List FixedHash} {accountId : AccountId} {db db' : Db}
    (heq : db'.told accountId = db.told accountId) (h : ToldBut fresh accountId db) :
    ToldBut fresh accountId db' := by
  obtain ⟨hchanges, hhashes⟩ := Prod.mk.inj heq
  unfold ToldBut
  rwa [hchanges, hhashes]

/-! ## Events -/

section Events

variable {a accountId : AccountId} {event : WalletEvent}

theorem outputChanges_insertWalletEvent (db : Db) :
    (db.insertWalletEvent accountId event).2.outputChanges a = db.outputChanges a ++
      if accountId = a then event.eventType.outputChange.toList else [] := by
  unfold Db.outputChanges changesToldBy Db.insertWalletEvent AutoTable.insert
  dsimp only
  rw [List.filter_append, List.filterMap_append]
  by_cases heq : accountId = a
  · cases hchange : event.eventType.outputChange <;> simp [heq, hchange]
  · simp [heq]

theorem told_insertWalletEvent (db : Db) (h : event.eventType.outputChange = none) :
    (db.insertWalletEvent accountId event).2.told a = db.told a := by
  refine Prod.ext ?_ rfl
  show (db.insertWalletEvent accountId event).2.outputChanges a = db.outputChanges a
  simp [outputChanges_insertWalletEvent, h]

theorem WalletEventType.outputChange_aboutTransaction {e : WalletEventType}
    (h : e.aboutTransaction = true) : e.outputChange = none := by
  cases e <;> first | rfl | cases h

end Events

/-! ## Outputs -/

section Outputs

variable {a accountId : AccountId}

/-- An update that neither deletes rows nor changes what they are. -/
theorem told_updateOutputs (db : Db) {p : OutputRow → Bool} {f : OutputRow → OutputRow}
    (haccount : ∀ o, (f o).accountId = o.accountId) (hactive : ∀ o, (f o).active = o.active)
    (hhash : ∀ o, (f o).outputHash = o.outputHash) (hf : ∀ o, (f o).id = o.id) :
    Db.told a { db with outputs := db.outputs.updateWhere p f hf } = db.told a :=
  Prod.ext rfl (Table.map_select_updateWhere (fun o _ => by rw [haccount, hactive])
    (fun o _ => hhash o) hf)

theorem told_updateOutputStatus (db : Db) (outputId : Id) (status : OutputStatus) :
    (db.updateOutputStatus outputId status).told a = db.told a :=
  told_updateOutputs db (by intro _; rfl) (by intro _; rfl) (by intro _; rfl) (by intro _; rfl)

theorem told_markOutputConfirmed (db : Db) (hash : FixedHash) (height : Nat)
    (blockHash : FixedHash) : (db.markOutputConfirmed hash height blockHash).told a = db.told a :=
  told_updateOutputs db (by intro _; rfl) (by intro _; rfl) (by intro _; rfl) (by intro _; rfl)

theorem outputHashes_insertOutput {ext : Externals} {key : PrivateKey} {hash blockHash : FixedHash}
    {output : WalletOutput} {blockHeight minedTimestamp : Nat} {memoParsed memoHex : Option Memo}
    {payref : PaymentReference} {isBurn : Bool} {db db' : Db} {id : Id}
    (h : db.insertOutput ext accountId key hash output blockHeight blockHash minedTimestamp
      memoParsed memoHex payref isBurn = .ok (id, db')) :
    db'.ledger.outputHashes a =
      db.ledger.outputHashes a ++ if accountId = a then [hash] else [] := by
  obtain ⟨_, -, -, -, rfl⟩ := insertOutput_ok h
  unfold Ledger.outputHashes Table.select
  show (List.filter _ (db.outputs.rows ++ [_])).map _ = _
  rw [List.filter_append, List.map_append]
  by_cases heq : accountId = a <;> simp [heq, newOutputRow, OutputRow.active, Db.ledger]

/-- A rollback takes away the outputs that it finds. -/
theorem outputHashes_setOutputsDeleted (a accountId : AccountId) (db : Db) (height : Nat)
    (now : Timestamp) :
    (db.ledger.outputHashes a).Perm ((db.setOutputsDeleted accountId height now).ledger.outputHashes a
      ++ if accountId = a then
        (db.getActiveOutputsFromHeight accountId height).map (·.outputHash) else []) := by
  let own : OutputRow → Bool := fun o => o.accountId == a && o.active
  have hleft : (db.setOutputsDeleted accountId height now).outputs.select own =
      (db.outputs.select own).filter (fun o => !o.activeFrom accountId height) :=
    Table.select_updateWhere_unmarked (fun o => by simp [own, OutputRow.active]) (by intro _; rfl)
  have hgone : (if accountId = a then
      (db.getActiveOutputsFromHeight accountId height).map (·.outputHash) else []) =
      ((db.outputs.select own).filter (OutputRow.activeFrom accountId height)).map
        (·.outputHash) := by
    by_cases heq : accountId = a
    · subst heq
      rw [if_pos rfl, Db.getActiveOutputsFromHeight, List.map_map, Table.select, Table.select,
        List.filter_filter]
      refine congrArg (List.map _) (List.filter_congr (fun o _ => ?_))
      simp only [own, OutputRow.activeFrom]
      cases o.accountId == accountId <;> cases o.active <;> simp
    · rw [if_neg heq, eq_comm, List.map_eq_nil_iff, List.filter_eq_nil_iff]
      intro o ho hfrom
      have hown : o.accountId = a := by
        have := (Table.mem_select.mp ho).2
        simp only [own, Bool.and_eq_true, beq_iff_eq] at this
        exact this.1
      exact heq ((OutputRow.activeFrom_eq_true.mp hfrom).1.1.symm.trans hown)
  show (List.map _ (db.outputs.select own)).Perm
    (((db.setOutputsDeleted accountId height now).outputs.select own).map (·.outputHash) ++ _)
  rw [hleft, hgone, ← List.map_append]
  exact ((List.filter_append_perm _ _).symm.trans List.perm_append_comm).map _

/-- No hash is there twice. -/
theorem nodup_outputHashes {L : Ledger} (hunique : UniqueHashes L.outputs) :
    (L.outputHashes a).Nodup := by
  refine List.Nodup.map_on (fun o ho o' ho' hhash => ?_)
    (List.Nodup.of_map key (Table.nodup_select L.outputs.toTable _))
  obtain ⟨hrow, hp⟩ := Table.mem_select.mp ho
  obtain ⟨hrow', hp'⟩ := Table.mem_select.mp ho'
  simp only [Bool.and_eq_true] at hp hp'
  exact hunique o hrow o' hrow' hp.2 hp'.2 hhash

end Outputs

theorem told_of_keeps {a : AccountId} {fresh : List FixedHash} {α : Type} {x : DbM α}
    (h : Keeps (Db.told a) x) : Ensures (ToldBut fresh a) x (fun _ => ToldBut fresh a) :=
  h.carries (fun _ _ heq htold => htold.of_told heq)

/-! ## Blocks -/

section Blocks

variable {env : ScanEnv} {bp : BlockProcessor} {now : Timestamp} {block : BlockScanResult}
  {a accountId : AccountId}

/-- The event of an output is stored after the output. -/
theorem makeOutputDetectedEvent_told (hash : FixedHash) (memo : MemoInfo) :
    Ensures (ToldBut (if accountId = a then [hash] else []) a)
      (insert (·.insertWalletEvent accountId
        (makeOutputDetectedEvent accountId hash block memo)) : DbM Id) (fun _ => ToldBut [] a) := by
  refine Ensures.insert (fun db h => ?_)
  unfold ToldBut at h ⊢
  rw [outputChanges_insertWalletEvent, Changelog.replay_append, List.append_nil]
  show List.Perm _ (db.ledger.outputHashes a)
  refine List.Perm.trans (List.Perm.of_eq ?_) h
  by_cases heq : accountId = a
  · simp [heq, makeOutputDetectedEvent, WalletEventType.outputChange, Changelog.Entry.apply]
  · simp [heq]

theorem processOutput_told (key : PrivateKey) (st : BlockProcessor.LoopState)
    (w : FixedHash × WalletOutput × Nat) :
    Ensures (ToldBut [] a) (BlockProcessor.processOutput env bp now block accountId key st w)
      (fun _ => ToldBut [] a) := by
  obtain ⟨hash, output, walletIdx⟩ := w
  unfold BlockProcessor.processOutput
  dsimp only
  split
  · exact Ensures.pure (fun _ h => h)
  · refine Ensures.ite (fun _ => Ensures.pure (fun _ h => h)) (fun _ => ?_)
    refine Ensures.bind (Q := fun _ => ToldBut (if accountId = a then [hash] else []) a)
      (Ensures.stmt (fun db id db' h hins => ?_)) (fun outputId => ?_)
    · have hevents : db'.outputChanges a = db.outputChanges a := by
        obtain ⟨_, -, -, -, rfl⟩ := insertOutput_ok hins
        rfl
      unfold ToldBut at h ⊢
      rw [hevents, outputHashes_insertOutput hins]
      rw [List.append_nil] at h
      exact h.append_right _
    · exact Ensures.bind (makeOutputDetectedEvent_told hash _) (fun eventId =>
        Ensures.bind (told_of_keeps (Keeps.insert (fun _ => rfl))) (fun _ =>
          Ensures.pure (fun _ h => h)))

theorem processConfirmations_keepsTold :
    Keeps (Db.told a) (bp.processConfirmations now block accountId) :=
  Keeps.bind Keeps.query (fun _ => Keeps.bind
    (Keeps.foldlM (fun _ _ => Keeps.bind (Keeps.insert (fun db => told_insertWalletEvent db rfl))
      (fun _ => Keeps.bind (Keeps.update (fun db => told_markOutputConfirmed db _ _ _))
        (fun _ => Keeps.pure))))
    (fun _ => Keeps.bind (triggerWebhooks_keepsView (fun _ _ => rfl) _ _ _ _)
      (fun _ => Keeps.pure)))

theorem processOutputs_told (key : PrivateKey) (acc : BlockEventAccumulator) :
    Ensures (ToldBut [] a) (BlockProcessor.processOutputs env bp now block accountId key acc)
      (fun _ => ToldBut [] a) :=
  Ensures.bind (Ensures.foldlM (I := fun _ _ => ToldBut [] a) block.walletOutputs { acc }
      (fun w _ st => processOutput_told key st w))
    (fun st => Ensures.bind
      (told_of_keeps (triggerWebhooks_keepsView (fun _ _ => rfl) _ st.generatedEvents _ _))
      (fun _ => Ensures.pure (fun _ h => h)))

theorem processInputs_keepsTold (acc : BlockEventAccumulator) :
    Keeps (Db.told a) (BlockProcessor.processInputs now block accountId acc) :=
  processInputs_keepsView (fun _ _ => rfl) (fun _ _ => rfl)
    (fun db outputId => told_updateOutputStatus db outputId .spent) acc

theorem processBlock_told :
    Ensures (ToldBut [] a) (bp.processBlock env now block accountId) (fun _ => ToldBut [] a) :=
  processBlock_carries processOutputs_told (fun acc => told_of_keeps (processInputs_keepsTold acc))
    (told_of_keeps processConfirmations_keepsTold) (fun _ _ h => h.of_told rfl)
    (fun _ _ h => h.of_told rfl)

end Blocks

/-! ## Rollbacks -/

section Rollbacks

variable {a accountId : AccountId} {height : Nat} {now : Timestamp}
  {webhookConfig : Option WebhookTriggerConfig}

theorem outputChange_rollbackEvents (db : Db) (tipBlocks : List ScannedTipBlock) :
    (db.rollbackEvents accountId height tipBlocks).filterMap (·.eventType.outputChange) =
      (db.getActiveOutputsFromHeight accountId height).map (fun o => .removed o.outputHash) := by
  unfold Db.rollbackEvents
  simp only [List.filterMap_append, List.filterMap_map]
  have hblocks : (fun e : WalletEvent => e.eventType.outputChange) ∘ blockRolledBackEvent accountId =
      fun _ => none := rfl
  have hpending : (fun e : WalletEvent => e.eventType.outputChange) ∘
      pendingTransactionCancelledEvent accountId = fun _ => none := rfl
  have houtputs : (fun e : WalletEvent => e.eventType.outputChange) ∘
      outputRolledBackEvent accountId height = fun o => some (.removed o.outputHash) := rfl
  rw [hblocks, hpending, houtputs]
  simp [List.filterMap_eq_map']

/-- The log of a rollback. -/
theorem rollbackFromHeight_outputChanges {c c' : Conn Db} {info : ReorgInformation}
    (h : rollbackFromHeight accountId height webhookConfig now c = .ok info c') :
    c'.store.outputChanges a = c.store.outputChanges a ++
      if accountId = a then (c.store.getActiveOutputsFromHeight accountId height).map
        (fun o => .removed o.outputHash) else [] := by
  have hview : LogView (Db.outputChanges a) :=
    .of_tables (fun table _ => changesToldBy a table.rows)
  let P : List (Id × WalletEvent) → Db → Prop := fun generatedEvents db =>
    db.outputChanges a = c.store.outputChanges a ++
      if accountId = a then generatedEvents.filterMap (·.2.eventType.outputChange) else []
  let Q : Db → Prop := fun db => db.outputChanges a = c.store.outputChanges a ++
    if accountId = a then (c.store.getActiveOutputsFromHeight accountId height).map
      (fun o => .removed o.outputHash) else []
  refine rollbackFromHeight_logs (P := P) (Q := Q) hview
    (fun _ _ _ heq h => heq.trans h) (fun generatedEvents event => Ensures.insert (fun db h => ?_))
    (fun generatedEvents tipBlocks hevents => ?_) c info c' ⟨?_, rfl⟩ h
  · show (db.insertWalletEvent accountId event).2.outputChanges a = _
    rw [outputChanges_insertWalletEvent, show db.outputChanges a = _ from h]
    by_cases heq : accountId = a <;> cases hchange : event.eventType.outputChange <;>
      simp [heq, hchange]
  · refine ((triggerWebhooks_keepsView (v := Db.outputChanges a) (fun _ _ => rfl) _ _ _ _).carries
      (fun _ _ heq h => heq.trans h)).post (fun _ db h => ?_)
    show db.outputChanges a = _
    rw [show db.outputChanges a = _ from h, ← outputChange_rollbackEvents c.store tipBlocks,
      ← hevents, List.filterMap_map]
    rfl
  · show c.store.outputChanges a = _
    simp

theorem rollbackFromHeight_told :
    Ensures (ToldBut [] a) (rollbackFromHeight accountId height webhookConfig now)
      (fun _ => ToldBut [] a) := by
  intro c info c' h hx
  have hgone := outputHashes_setOutputsDeleted a accountId c.store height now
  have hleft : c'.store.ledger.outputHashes a =
      (c.store.setOutputsDeleted accountId height now).ledger.outputHashes a :=
    congrArg (fun outputs => Ledger.outputHashes a { c.store.ledger with outputs })
      (rollbackFromHeight_rolledBack hx).outputs
  unfold ToldBut at h ⊢
  rw [List.append_nil] at h ⊢
  rw [rollbackFromHeight_outputChanges hx, Changelog.replay_append, hleft]
  have hheld := h.trans hgone
  by_cases heq : accountId = a
  · rw [if_pos heq] at hheld ⊢
    have hreplay := Changelog.replay_removed hheld
    rwa [List.map_map] at hreplay
  · rw [if_neg heq] at hheld ⊢
    simpa using hheld

end Rollbacks

/-! ## Runs -/

section Runs

variable {a : AccountId} {db : Db} {env : TransactionEnv}

theorem outputHashes_statementRule (hashes : List FixedHash) :
    StatementRule (fun L => L.outputHashes a = hashes) where
  transactions _ _ _ h := h
  lock db _ _ _ h := (congrArg Prod.snd (told_updateOutputs db (by intro _; rfl)
    (by intro _; rfl) (by intro _; rfl) (by intro _; rfl))).trans h
  unlock db _ h := (congrArg Prod.snd (told_updateOutputs db (by intro _; rfl)
    (by intro _; rfl) (by intro _; rfl) (by intro _; rfl))).trans h

/-- A statement of a call neither brings nor removes outputs, and stores no event about one. -/
theorem Statement.apply_told {x : Statement}
    (hrecord : ∀ y hy, x = .record y hy → Keeps (Db.outputChanges a) y) :
    (x.apply db).told a = db.told a :=
  Prod.ext (Statement.apply_view ⟨fun _ _ => rfl, fun _ _ => rfl, fun _ _ => rfl⟩ hrecord)
    ((outputHashes_statementRule _).apply x rfl)

theorem outputChanges_recordView :
    RecordView (fun _ event => event.eventType.outputChange = none) (Db.outputChanges a) where
  events db _ _ h := congrArg Prod.fst (told_insertWalletEvent db h)
  webhooks _ _ := rfl
  displayed _ _ := rfl

theorem told_step {s s' : BurnSystem} {b : BurnAction} (h : ToldBut [] a s.wallet.db)
    (hstep : s.step env b = some s') : ToldBut [] a s'.wallet.db :=
  BurnSystem.step_carries (I := ToldBut [] a)
    (fun _ _ hrecord h => h.of_told (Statement.apply_told (fun y hy hx =>
      (hrecord y hy hx).keepsView outputChanges_recordView
        (fun _ _ habout => WalletEventType.outputChange_aboutTransaction habout))))
    (fun _ _ _ _ => processBlock_told) (fun _ _ _ _ => rollbackFromHeight_told) h hstep

theorem told_of_run {s : BurnSystem} {as : List BurnAction}
    (hrun : Transition.run (BurnSystem.step env) { wallet := { db := Db.empty } } as = some s)
    (accountId : AccountId) : (Changelog.replay [] (s.wallet.db.outputChanges accountId)).Perm
      (s.wallet.db.ledger.outputHashes accountId) := by
  have hstart : ToldBut [] accountId Db.empty := List.Perm.refl []
  have htold := Transition.inv_of_steps (I := fun s => ToldBut [] accountId s.wallet.db)
    (fun _ _ _ h hstep => told_step h hstep) hstart hrun
  unfold ToldBut at htold
  rwa [List.append_nil] at htold

end Runs

/-- In every run of calls, burns, blocks and rollbacks of all accounts, whoever replays the events
    of an account holds the hashes of the outputs that the account has, and each once. -/
theorem replay_of_events (env : TransactionEnv) {s : BurnSystem} {as : List BurnAction}
    (hrun : Transition.run (BurnSystem.step env) { wallet := { db := Db.empty } } as = some s)
    (accountId : AccountId) :
    (Changelog.replay [] (s.wallet.db.outputChanges accountId)).Perm
      (s.wallet.db.ledger.outputHashes accountId) ∧
    (Changelog.replay [] (s.wallet.db.outputChanges accountId)).Nodup := by
  have htold := told_of_run hrun accountId
  have hnodup := nodup_outputHashes (a := accountId)
    (BurnSystem.inAccounts_of_run hrun).same.hashes
  exact ⟨htold, htold.nodup_iff.mpr hnodup⟩

/-- The first block of account 1 is orphaned, and the chain goes on with another that has one of its
    two outputs. -/
def depositsOrphaned : List BurnAction :=
  [.wallet (.rollbackFromHeight 1 1 none 1200),
    .wallet (.processBlock (BlockProcessor.withEventSender [(1, 7), (2, 8)] 3)
      ⟨1, 201, [(501, { outputHash := 501, value := 300 }, 0)], [], 1210⟩ 1 1210)]

theorem replay_of_events_depositsOrphaned : ∃ s,
    Transition.run (BurnSystem.step plainTransactionEnv) { wallet := { db := Db.empty } }
      (bothFunded ++ depositsOrphaned) = some s ∧
    s.wallet.db.outputChanges 1 = [.added 500, .added 501, .removed 500, .removed 501, .added 501] ∧
    (s.wallet.db.ledger.outputHashes 1).Perm [501] := by
  obtain ⟨s, hrun, hq⟩ := Transition.exists_run_of_any (f := BurnSystem.step plainTransactionEnv)
    (s := { wallet := { db := Db.empty } }) (l := bothFunded ++ depositsOrphaned)
    (q := fun s => decide (s.wallet.db.outputChanges 1 =
      [.added 500, .added 501, .removed 500, .removed 501, .added 501])) (by decide +kernel)
  have hchanges := of_decide_eq_true hq
  have h := (replay_of_events plainTransactionEnv hrun 1).1
  rw [hchanges] at h
  exact ⟨s, hrun, hchanges, h.symm.trans (by decide)⟩

/-! ## Listeners that catch up -/

/-- The events are those of before and more. -/
def EventsSince (events : List EventRow) (db : Db) : Prop := events <+: db.events.rows

section Since

variable {events : List EventRow} {accountId : AccountId} {now : Timestamp}

theorem EventsSince.insertWalletEvent {db : Db} (h : EventsSince events db) (event : WalletEvent) :
    EventsSince events (db.insertWalletEvent accountId event).2 :=
  h.trans (List.prefix_append _ _)

theorem EventsSince.of_events {db db' : Db} (heq : db'.events = db.events)
    (h : EventsSince events db) : EventsSince events db' := by
  unfold EventsSince
  rwa [heq]

theorem insertWalletEvent_since (event : WalletEvent) : Ensures (EventsSince events)
    (insert (·.insertWalletEvent accountId event) : DbM Id) (fun _ => EventsSince events) :=
  Ensures.insert (fun _ h => h.insertWalletEvent event)

theorem since_of_keeps {α : Type} {x : DbM α} (h : Keeps Db.events x) :
    Ensures (EventsSince events) x (fun _ => EventsSince events) :=
  h.carries (fun _ _ heq h => h.of_events heq)

theorem processOutput_since {env : ScanEnv} {bp : BlockProcessor} {block : BlockScanResult}
    (key : PrivateKey) (st : BlockProcessor.LoopState) (w : FixedHash × WalletOutput × Nat) :
    Ensures (EventsSince events)
      (BlockProcessor.processOutput env bp now block accountId key st w)
      (fun _ => EventsSince events) := by
  obtain ⟨hash, output, walletIdx⟩ := w
  unfold BlockProcessor.processOutput
  dsimp only
  split
  · exact Ensures.pure (fun _ h => h)
  · refine Ensures.ite (fun _ => Ensures.pure (fun _ h => h)) (fun _ => ?_)
    refine Ensures.bind (since_of_keeps (Keeps.stmt (fun db id db' hins => ?_))) (fun outputId =>
      Ensures.bind (insertWalletEvent_since _) (fun eventId =>
        Ensures.bind (since_of_keeps (Keeps.insert (fun _ => rfl))) (fun _ =>
          Ensures.pure (fun _ h => h))))
    obtain ⟨_, -, -, -, rfl⟩ := insertOutput_ok hins
    rfl

theorem processOutputs_since {env : ScanEnv} {bp : BlockProcessor} {block : BlockScanResult}
    (key : PrivateKey) (acc : BlockEventAccumulator) :
    Ensures (EventsSince events) (BlockProcessor.processOutputs env bp now block accountId key acc)
      (fun _ => EventsSince events) :=
  Ensures.bind (Ensures.foldlM (I := fun _ _ => EventsSince events) block.walletOutputs
      ({ acc } : BlockProcessor.LoopState) (fun w _ st => processOutput_since key st w))
    (fun st => Ensures.bind
      (since_of_keeps (triggerWebhooks_keepsView (fun _ _ => rfl) _ st.generatedEvents _ _))
      (fun _ => Ensures.pure (fun _ h => h)))

theorem processConfirmations_since {bp : BlockProcessor} {block : BlockScanResult} :
    Ensures (EventsSince events) (bp.processConfirmations now block accountId)
      (fun _ => EventsSince events) := by
  refine Ensures.bind (since_of_keeps Keeps.query) (fun rows => ?_)
  refine Ensures.bind (Q := fun _ => EventsSince events) (Ensures.foldlM
    (I := fun _ _ => EventsSince events) rows [] (fun row _ generatedEvents => ?_))
    (fun generatedEvents => Ensures.bind
      (since_of_keeps (triggerWebhooks_keepsView (fun _ _ => rfl) _ generatedEvents _ _))
      (fun _ => Ensures.pure (fun _ h => h)))
  exact Ensures.bind (insertWalletEvent_since _) (fun eventId =>
    Ensures.bind (since_of_keeps (Keeps.update (fun _ => rfl))) (fun _ =>
      Ensures.pure (fun _ h => h)))

theorem processBlock_since {env : ScanEnv} {bp : BlockProcessor} {block : BlockScanResult} :
    Ensures (EventsSince events) (bp.processBlock env now block accountId)
      (fun _ => EventsSince events) :=
  processBlock_carries processOutputs_since
    (fun acc => since_of_keeps (processInputs_keepsView (fun _ _ => rfl) (fun _ _ => rfl)
      (fun _ _ => rfl) acc))
    processConfirmations_since (fun _ _ h => h.of_events rfl) (fun _ _ h => h.of_events rfl)

theorem rollbackFromHeight_since {height : Nat} {webhookConfig : Option WebhookTriggerConfig} :
    Ensures (EventsSince events) (rollbackFromHeight accountId height webhookConfig now)
      (fun _ => EventsSince events) := by
  intro c info c' h hx
  exact rollbackFromHeight_logs (P := fun _ => EventsSince events)
    (LogView.of_tables (fun table _ => table)) (fun _ _ _ heq h => h.of_events heq)
    (fun _ event => insertWalletEvent_since event)
    (fun _ _ _ => since_of_keeps (triggerWebhooks_keepsView (fun _ _ => rfl) _ _ _ _))
    c info c' ⟨h, rfl⟩ hx

/-- The event is stored, or nothing is. -/
theorem persistEvent_since (m : TransactionMonitor) (event : WalletEvent) :
    Throughout (EventsSince events) (m.persistEvent event now) (fun _ => EventsSince events)
      (EventsSince events) :=
  (Throughout.insert (fun _ h => h) (fun _ h => h.insertWalletEvent event)).bind (fun _ =>
    Throughout.of_keepsView (triggerWebhooks_keepsView (v := Db.events) (fun _ _ => rfl) _ _ _ _)
      (fun _ _ heq h => h.of_events heq))

theorem CallRecord.since {y : DbM Unit} (hrecord : CallRecord y) :
    Throughout (EventsSince events) y (fun _ => EventsSince events) (EventsSince events) := by
  rcases hrecord with ⟨tx, rfl⟩ | ⟨m, event, now, -, rfl | ⟨txId, rfl⟩⟩
  · exact Throughout.update (fun _ h => h)
      (fun db h => h.of_events (insertDisplayedTransaction_keepsView (fun _ _ => rfl) db tx))
  · exact persistEvent_since m event
  · have hmark : Keeps Db.events (markDisplayedTransactionRejected txId) := by
      refine Keeps.bind Keeps.query (fun row => ?_)
      cases row with
      | none => exact Keeps.pure
      | some row => exact Keeps.bind (Keeps.update (fun _ => rfl)) (fun _ => Keeps.pure)
    exact (Throughout.of_keepsView hmark (fun _ _ heq h => h.of_events heq)).bind
      (fun _ => persistEvent_since m event)

theorem Statement.apply_since {db : Db} {x : Statement}
    (hrecord : ∀ y hy, x = .record y hy → CallRecord y) (h : EventsSince events db) :
    EventsSince events (x.apply db) := by
  by_cases hx : ∃ y hy, x = .record y hy
  · obtain ⟨y, hy, rfl⟩ := hx
    exact (hrecord y hy rfl).since.after (fun _ _ h => h) (c := ⟨db, none⟩) h
  · have hview : (x.apply db).events = db.events := Statement.apply_view
      ⟨fun _ _ => rfl, fun _ _ => rfl, fun _ _ => rfl⟩ (fun y hy hrec => absurd ⟨y, hy, hrec⟩ hx)
    exact h.of_events hview

theorem since_step {env : TransactionEnv} {s s' : BurnSystem} {b : BurnAction}
    (h : EventsSince events s.wallet.db) (hstep : s.step env b = some s') :
    EventsSince events s'.wallet.db :=
  BurnSystem.step_carries (I := EventsSince events)
    (fun _ _ hrecord h => Statement.apply_since hrecord h) (fun _ _ _ _ => processBlock_since)
    (fun _ _ _ _ => rollbackFromHeight_since) h hstep

end Since

/-- Whoever has the outputs of an account at some point, and replays only the events stored since,
    has its outputs at any later point: no event is changed or lost. -/
theorem listener_catches_up (env : TransactionEnv) {s s' : BurnSystem} {as bs : List BurnAction}
    (hrun : Transition.run (BurnSystem.step env) { wallet := { db := Db.empty } } as = some s)
    (hrun' : Transition.run (BurnSystem.step env) s bs = some s') (accountId : AccountId) :
    ∃ new, s'.wallet.db.events.rows = s.wallet.db.events.rows ++ new ∧
      (Changelog.replay (s.wallet.db.ledger.outputHashes accountId)
        (changesToldBy accountId new)).Perm (s'.wallet.db.ledger.outputHashes accountId) := by
  have hstart : EventsSince s.wallet.db.events.rows s.wallet.db := List.prefix_refl _
  have hsince := Transition.inv_of_steps
    (I := fun t => EventsSince s.wallet.db.events.rows t.wallet.db)
    (fun _ _ _ h hstep => since_step h hstep) hstart hrun'
  obtain ⟨new, hnew⟩ := hsince
  have hbefore := told_of_run hrun accountId
  have hafter := told_of_run (Transition.run_append.mpr ⟨s, hrun, hrun'⟩) accountId
  have hchanges : s'.wallet.db.outputChanges accountId =
      s.wallet.db.outputChanges accountId ++ changesToldBy accountId new := by
    unfold Db.outputChanges
    rw [← hnew, changesToldBy, List.filter_append, List.filterMap_append]
    rfl
  rw [hchanges, Changelog.replay_append] at hafter
  exact ⟨new, hnew.symm, (Changelog.replay_perm _ hbefore.symm).trans hafter⟩

theorem listener_catches_up_depositsOrphaned : ∃ s s',
    Transition.run (BurnSystem.step plainTransactionEnv) { wallet := { db := Db.empty } }
      bothFunded = some s ∧
    Transition.run (BurnSystem.step plainTransactionEnv) s depositsOrphaned = some s' ∧
    ∃ new, s'.wallet.db.events.rows = s.wallet.db.events.rows ++ new ∧
      (Changelog.replay (s.wallet.db.ledger.outputHashes 1) (changesToldBy 1 new)).Perm
        (s'.wallet.db.ledger.outputHashes 1) := by
  obtain ⟨s', hrun, -⟩ := Transition.exists_run_of_any (f := BurnSystem.step plainTransactionEnv)
    (s := { wallet := { db := Db.empty } }) (l := bothFunded ++ depositsOrphaned)
    (q := fun _ => true) (by decide +kernel)
  obtain ⟨s, hfunded, horphaned⟩ := Transition.run_append.mp hrun
  exact ⟨s, s', hfunded, horphaned, listener_catches_up plainTransactionEnv hfunded horphaned 1⟩

end MinotariWallet
